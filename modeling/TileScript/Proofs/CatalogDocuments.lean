import Mathlib.Data.List.Nodup
import TileScript.Catalog.Document
import TileScript.Proofs.JsonText

/-! # Catalogs and their documents

A catalog is what its document is loaded as, whatever its types hold. So loading gives the same
catalog however the document was written, once it has been saved.
-/

namespace TileScript

open Json

namespace Json

section Lists

variable {α β : Type} {read? : β → Option α}

theorem mapM_map_eq_some {l : List α} {write : α → β} (h : ∀ a ∈ l, read? (write a) = some a) :
    (l.map write).mapM read? = some l := by
  induction l with
  | nil => rfl
  | cons a l ih =>
    simp [h a (by simp), ih fun b hb => h b (by simp [hb])]

theorem exists_of_mem_mapM {bs : List β} {l : List α} (h : bs.mapM read? = some l) :
    ∀ a ∈ l, ∃ b, read? b = some a := by
  induction bs generalizing l with
  | nil =>
    cases h
    simp
  | cons b bs ih =>
    simp only [List.mapM_cons, Option.bind_eq_bind, Option.bind_eq_some_iff] at h
    obtain ⟨a, ha, as, has, h⟩ := h
    cases h
    intro a' ha'
    rcases List.mem_cons.1 ha' with rfl | ha'
    · exact ⟨b, ha⟩
    · exact ih has a' ha'

end Lists

section Numbers

theorem int?_ofInt (n : Int) : int? (ofInt n) = some n := by
  simp only [int?, ofInt, Number.toInt?]
  by_cases h : n < 0
  · have hz : (n.natAbs == 0) = false := by
      rw [beq_eq_false_iff_ne]
      omega
    have hn : -(n.natAbs : Int) = n := by omega
    simp only [h, hz, decide_true, Bool.not_true, Bool.and_false, Bool.or_false,
      Bool.false_eq_true, if_false, if_true, hn]
  · have hn : (n.natAbs : Int) = n := by omega
    simp only [h, decide_false, Bool.not_true, Bool.false_and, Bool.or_false, Bool.false_eq_true,
      if_false, hn]

theorem int?_ofNat (n : Nat) : int? (ofNat n) = some (n : Int) := by
  simp [int?, ofNat, Number.toInt?]

theorem int64?_ofInt (n : Int64) : int64? (ofInt n.toInt) = some n := by
  rw [int64?, int?_ofInt, Option.bind_some, Value.toInt64?_toInt]

theorem uint32?_ofNat (n : UInt32) : uint32? (ofNat n.toNat) = some n := by
  rw [uint32?, int?_ofNat, Option.bind_some, Value.toUInt32?_toNat]

theorem nat64?_ofNat {n : Nat} (h : n < 0x10000000000000000) : nat64? (ofNat n) = some n := by
  rw [nat64?, int?_ofNat, Option.bind_some, toNat64?, if_pos (by omega), Int.toNat_natCast]

theorem lt_of_nat64? {j : Json} {n : Nat} (h : nat64? j = some n) : n < 0x10000000000000000 := by
  obtain ⟨i, -, hi⟩ := Option.bind_eq_some_iff.1 h
  unfold toNat64? at hi
  split at hi
  · cases hi
    omega
  · cases hi

end Numbers

section Tables

variable {α : Type}

theorem foldl_insert_toList (t : Std.ExtTreeMap String α) :
    t.toList.foldl (fun t x => t.insert x.1 x.2) {} = t := by
  show t.toList.foldl (fun t x => t.insert x.1 x.2) ∅ = t
  rw [← Std.ExtTreeMap.ofList_eq_foldl]
  refine Std.ExtTreeMap.ext_getElem? fun name => ?_
  cases h : t[name]? with
  | some a =>
    rw [← Std.ExtTreeMap.mem_toList_iff_getElem?_eq_some] at h
    exact Std.ExtTreeMap.getElem?_ofList_of_mem Std.ReflCmp.compare_self
      Std.ExtTreeMap.distinct_keys_toList h
  | none =>
    refine Std.ExtTreeMap.getElem?_ofList_of_contains_eq_false ?_
    rw [Std.ExtTreeMap.map_fst_toList_eq_keys]
    simpa using h

theorem table?_ofTable {read? : Json → Option α} {write : α → Json}
    (h : ∀ a, read? (write a) = some a) (t : Std.ExtTreeMap String α) :
    table? read? (ofTable write t) = some t := by
  have hentries : (t.toList.map fun x => (x.1, write x.2)).mapM
      (fun (x : String × Json) => (read? x.2).map (x.1, ·)) = some t.toList :=
    mapM_map_eq_some fun x _ => by rw [h]; rfl
  simp only [table?, ofTable]
  rw [hentries]
  exact congrArg some (foldl_insert_toList t)

theorem fields?_object {names : List String} {ms : List (String × Json)}
    (h : ms.map Prod.fst = names) (hn : names.Nodup) : fields? names (.object ms) = some ms := by
  subst h
  have hknown : ms.filter (fun x => (ms.map Prod.fst).contains x.1) = ms := by
    rw [List.filter_eq_self]
    intro x hx
    simpa using ⟨x.2, hx⟩
  have honce : ∀ name, (ms.filter (·.1 == name)).length ≤ 1 := by
    intro name
    have hcount := List.nodup_iff_count_le_one.1 hn name
    rwa [List.count, List.countP_map, List.countP_eq_length_filter] at hcount
  simp only [fields?]
  rw [hknown, if_pos]
  simp [honce]

end Tables

namespace Fields

variable {α : Type} {name other : String} {read? : Json → Option α} {value : α} {fs : Fields}

@[simp] theorem required?_cons (j : Json) : required? ((name, j) :: fs) name read? = read? j := by
  simp [required?]

@[simp] theorem required?_cons_of_ne (h : name ≠ other) (j : Json) :
    required? ((other, j) :: fs) name read? = required? fs name read? := by
  have hn : (name == other) = false := by simpa using h
  simp [required?, List.lookup_cons, hn]

@[simp] theorem default?_cons (j : Json) :
    default? ((name, j) :: fs) name read? value = read? j := by
  simp [default?]

@[simp] theorem default?_cons_of_ne (h : name ≠ other) (j : Json) :
    default? ((other, j) :: fs) name read? value = default? fs name read? value := by
  have hn : (name == other) = false := by simpa using h
  simp [default?, List.lookup_cons, hn]

end Fields

end Json

/-- A value that its document gives back. -/
structure RoundTrips {α : Type} [JsonForm α] (a : α) : Prop where
  plain : Plain (JsonForm.toJson a)
  ofJson? : JsonForm.ofJson? (JsonForm.toJson a) = some a

theorem plain_ofNat (n : Nat) : Plain (.ofNat n) := .number

theorem plain_ofInt (n : Int) : Plain (.ofInt n) := .number

theorem plain_strings (ss : List String) : Plain (.array (ss.map .string)) := by
  refine .array fun v hv => ?_
  obtain ⟨s, -, rfl⟩ := List.mem_map.1 hv
  exact .string

theorem list?_strings (ss : List String) : list? string? (.array (ss.map .string)) = some ss :=
  mapM_map_eq_some fun _ _ => rfl

theorem plain_ofTable {α : Type} {write : α → Json} (h : ∀ a, Plain (write a))
    (t : Std.ExtTreeMap String α) : Plain (ofTable write t) := by
  refine .object fun m hm => ?_
  obtain ⟨x, -, rfl⟩ := List.mem_map.1 hm
  exact h x.2

theorem EntityType.nodup_fieldNames : EntityType.fieldNames.Nodup := by simp [fieldNames]

theorem ItemType.nodup_fieldNames : ItemType.fieldNames.Nodup := by simp [fieldNames]

theorem EntityType.roundTrips {t : EntityType} (h : t.storageSlots < 0x10000000000000000) :
    RoundTrips t where
  plain := by
    refine .object ?_
    simp only [List.forall_mem_cons]
    exact ⟨plain_ofNat _, .string, .string, .bool, plain_ofNat _, plain_ofNat _,
      plain_ofTable (fun n : Int64 => plain_ofInt n.toInt) _, plain_strings _, by simp⟩
  ofJson? := by
    -- the reader has nothing but the fields, so each is looked up among them
    obtain ⟨fs, hfs⟩ : ∃ fs, EntityType.toJson t = .object fs := ⟨_, rfl⟩
    have hms := Json.object.inj hfs
    have hread : fields? fieldNames (EntityType.toJson t) = some fs :=
      hfs ▸ fields?_object (hms ▸ rfl) nodup_fieldNames
    have hid : Fields.required? fs "id" uint32? = some t.id := by
      rw [← hms, Fields.required?_cons, uint32?_ofNat]
    have hname : Fields.required? fs "name" string? = some t.name := by
      simp [← hms, string?]
    have hdescription : Fields.default? fs "description" string? "" = some t.description := by
      simp [← hms, string?]
    have hsolid : Fields.default? fs "solid" bool? false = some t.solid := by
      simp [← hms, bool?]
    have hsize : Fields.default? fs "size" uint32? 1 = some t.size := by
      simp [← hms, uint32?_ofNat]
    have hslots : Fields.default? fs "storage_slots" nat64? 0 = some t.storageSlots := by
      simp [← hms, nat64?_ofNat h]
    have hvars : Fields.default? fs "variables" (table? int64?) {} = some t.vars := by
      simp [← hms, table?_ofTable int64?_ofInt]
    have hfunctions : Fields.default? fs "functions" (list? string?) [] = some t.functions := by
      simp [← hms, list?_strings]
    show EntityType.ofJson? (EntityType.toJson t) = some t
    simp [EntityType.ofJson?, hread, hid, hname, hdescription, hsolid, hsize, hslots, hvars,
      hfunctions]

theorem ItemType.roundTrips (t : ItemType) : RoundTrips t where
  plain := by
    refine .object ?_
    simp only [List.forall_mem_cons]
    exact ⟨plain_ofNat _, .string, .string, plain_strings _, by simp⟩
  ofJson? := by
    obtain ⟨fs, hfs⟩ : ∃ fs, ItemType.toJson t = .object fs := ⟨_, rfl⟩
    have hms := Json.object.inj hfs
    have hread : fields? fieldNames (ItemType.toJson t) = some fs :=
      hfs ▸ fields?_object (hms ▸ rfl) nodup_fieldNames
    have hid : Fields.required? fs "id" uint32? = some t.id := by
      rw [← hms, Fields.required?_cons, uint32?_ofNat]
    have hname : Fields.required? fs "name" string? = some t.name := by
      simp [← hms, string?]
    have hdescription : Fields.default? fs "description" string? "" = some t.description := by
      simp [← hms, string?]
    have hfunctions : Fields.default? fs "functions" (list? string?) [] = some t.functions := by
      simp [← hms, list?_strings]
    show ItemType.ofJson? (ItemType.toJson t) = some t
    simp [ItemType.ofJson?, hread, hid, hname, hdescription, hfunctions]

theorem EntityType.storageSlots_lt {j : Json} {t : EntityType} (h : ofJson? j = some t) :
    t.storageSlots < 0x10000000000000000 := by
  simp only [ofJson?, Option.bind_eq_bind, Option.bind_eq_some_iff] at h
  obtain ⟨fs, -, id, -, name, -, description, -, solid, -, size, -, slots, hslots, vars, -,
    functions, -, ht⟩ := h
  cases ht
  unfold Fields.default? at hslots
  split at hslots
  · cases hslots
    show 0 < 0x10000000000000000
    decide
  · exact lt_of_nat64? hslots

namespace Catalog

variable {α : Type} [JsonForm α] {c : Catalog α}

theorem load?_save_of_roundTrips (h : ∀ t ∈ c.types, RoundTrips t) : load? c.save = some c := by
  have hplain : Plain c.toJson := by
    refine .object ?_
    rw [List.forall_mem_singleton]
    refine .array fun j hj => ?_
    obtain ⟨t, ht, rfl⟩ := List.mem_map.1 hj
    exact (h t ht).plain
  have htypes : list? JsonForm.ofJson? (.array (c.types.map JsonForm.toJson)) = some c.types :=
    mapM_map_eq_some fun t ht => (h t ht).ofJson?
  rw [load?, save, pretty, hplain.parse?_render, Option.bind_some, ofJson?, toJson,
    fields?_object (by rfl) (by simp), Option.bind_eq_bind, Option.bind_some,
    Fields.required?_cons, htypes]
  rfl

theorem exists_of_mem_load? {text : String} (h : load? text = some c) :
    ∀ t ∈ c.types, ∃ j, JsonForm.ofJson? j = some t := by
  obtain ⟨j, -, hj⟩ := Option.bind_eq_some_iff.1 h
  simp only [ofJson?, Option.bind_eq_bind, Option.bind_eq_some_iff] at hj
  obtain ⟨fs, -, types, htypes, hc⟩ := hj
  cases hc
  obtain ⟨a, -, ha⟩ := Option.bind_eq_some_iff.1 htypes
  cases a with
  | array vs => exact exists_of_mem_mapM ha
  | _ => cases ha

/-- A catalog that is saved and loaded is the same catalog, if its numbers of slots are machine
words, which they are in a catalog that was loaded from any document before. -/
theorem load?_save :
    (∀ c : Catalog EntityType, (∀ t ∈ c.types, t.storageSlots < 0x10000000000000000) →
      load? c.save = some c) ∧
      (∀ c : Catalog ItemType, load? c.save = some c) ∧
      (∀ text (c : Catalog EntityType), load? text = some c → load? c.save = some c) ∧
      ∀ text (c : Catalog ItemType), load? text = some c → load? c.save = some c := by
  have hitems (c : Catalog ItemType) : load? c.save = some c :=
    load?_save_of_roundTrips fun t _ => t.roundTrips
  refine ⟨fun c h => ?_, hitems, fun text c h => ?_, fun _ c _ => hitems c⟩
  · exact load?_save_of_roundTrips fun t ht => EntityType.roundTrips (h t ht)
  · refine load?_save_of_roundTrips fun t ht => ?_
    obtain ⟨j, hj⟩ := exists_of_mem_load? h t ht
    exact EntityType.roundTrips (EntityType.storageSlots_lt hj)

/-- A type with a variable, and types written as rows of fields of which the last ones are left
out. -/
theorem load?_save_doors :
    (let c : Catalog EntityType :=
        ⟨[⟨1, "\"A\"", "", true, 1, 2, .ofList [("Width", (-3 : Int64))], ["open"]⟩]⟩;
      load? c.save = some c) ∧
      (let c : Catalog EntityType := ⟨[{ id := 7, name := "Door" }]⟩;
      load? c.save = some c) ∧
      (let c : Catalog ItemType := ⟨[{ id := 8, name := "Key" }]⟩;
      load? c.save = some c) := by
  have hentity : load? "[[[7,\"Door\"]]]" =
      some (⟨[{ id := 7, name := "Door" }]⟩ : Catalog EntityType) := by
    decide +kernel
  have hitem : load? "[[[8,\"Key\"]]]" =
      some (⟨[{ id := 8, name := "Key" }]⟩ : Catalog ItemType) := by
    decide +kernel
  exact ⟨load?_save.1 _ (by simp), load?_save.2.2.1 _ _ hentity, load?_save.2.2.2 _ _ hitem⟩

end Catalog

end TileScript
