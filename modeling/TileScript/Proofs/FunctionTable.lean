import Mathlib.Data.List.Nodup
import TileScript.Function.Table

/-! # Functions by number, by name and by owner

The three ways to find a function agree, and the table depends on which functions there are, not on
the order in which a source lists them.
-/

namespace TileScript

open Text

theorem FunctionKey.of_eq_of_sameLetters {c : Category} {o o' n : String}
    (h : sameLetters o o' = true) : of c o n = of c o' n := by
  simp only [sameLetters, beq_iff_eq] at h
  simp only [of, h]

namespace FunctionTable

/-- The functions are numbered in the strict order of their keys. -/
structure Numbered (t : FunctionTable) : Prop where
  ids : t.functions.map (·.id) = List.range t.functions.length
  ascending : (t.functions.map (·.key)).Pairwise (compare · · = .lt)

/-- Numbers, names and owners lead to the same functions, and there is one for each key known. -/
structure Agrees (t : FunctionTable) (known : FunctionKey → Prop) : Prop extends Numbered t where
  complete {k : FunctionKey} : (∃ f ∈ t.functions, f.key = k) ↔ known k
  get {i : Nat} {f : FunctionDescriptor} : t.get? i = some f ↔ f ∈ t.functions ∧ f.id = i
  found {c : Category} {o n : String} : (t.lookup? c o n).isSome ↔ known (.of c o n)
  lookup {c : Category} {o n : String} {f : FunctionDescriptor} :
    t.lookup? c o n = some f ↔ t.get? f.id = some f ∧ f.key = .of c o n
  casing {c : Category} {o o' n : String} :
    sameLetters o o' = true → t.lookup? c o n = t.lookup? c o' n
  sorted {c : Category} {o : String} : (t.functionsFor c o).Pairwise (· < ·)
  owned {c : Category} {o : String} {i : Nat} :
    i ∈ t.functionsFor c o ↔
      ∃ f, t.get? i = some f ∧ f.key.category = c ∧ f.key.owner = lower o

theorem foldl_insert_eq_some {l : List FunctionDescriptor} (hl : (l.map (·.key)).Nodup)
    {m : Std.ExtTreeMap FunctionKey Nat} {k : FunctionKey} {i : Nat} :
    (l.foldl (fun m f => m.insert f.key f.id) m)[k]? = some i ↔
      (∃ f ∈ l, f.key = k ∧ f.id = i) ∨ m[k]? = some i ∧ ∀ f ∈ l, f.key ≠ k := by
  induction l generalizing m with
  | nil => simp
  | cons g l ih =>
    obtain ⟨hg, hl⟩ := List.nodup_cons.1 hl
    rw [List.foldl_cons, ih hl, Std.ExtTreeMap.getElem?_insert]
    by_cases hk : g.key = k
    · subst hk
      have hne : ∀ f ∈ l, f.key ≠ g.key := fun f hf h => hg (List.mem_map.2 ⟨f, hf, h⟩)
      have hno : ¬ ∃ f ∈ l, f.key = g.key ∧ f.id = i := fun ⟨f, hf, hk, _⟩ => hne f hf hk
      simpa [hno] using fun _ => hne
    · simp [hk]

namespace Numbered

variable {t : FunctionTable} {c : Category} {o n : String} {i : Nat} {f g : FunctionDescriptor}
  {k : FunctionKey}

theorem id_eq (h : t.Numbered) (hi : t.functions[i]? = some f) : f.id = i := by
  obtain ⟨hlt, rfl⟩ := List.getElem?_eq_some_iff.1 hi
  have hids := congrArg (·[i]?) h.ids
  simpa [hlt] using hids

theorem get?_eq_some (h : t.Numbered) : t.get? i = some f ↔ f ∈ t.functions ∧ f.id = i := by
  rw [get?]
  constructor
  · intro hi
    exact ⟨List.mem_of_getElem? hi, h.id_eq hi⟩
  · rintro ⟨hf, rfl⟩
    obtain ⟨i, hi⟩ := List.getElem?_of_mem hf
    rwa [h.id_eq hi]

theorem nodup_keys (h : t.Numbered) : (t.functions.map (·.key)).Nodup := by
  refine h.ascending.imp ?_
  rintro k _ hk rfl
  exact absurd (hk.symm.trans Std.ReflCmp.compare_self) (by decide)

theorem index_eq_some (h : t.Numbered) :
    t.index[k]? = some i ↔ ∃ f ∈ t.functions, f.key = k ∧ f.id = i := by
  rw [index, foldl_insert_eq_some h.nodup_keys]
  simp

/-- What the index leads to is the function of the key. -/
theorem lookup?_eq_some (h : t.Numbered) :
    t.lookup? c o n = some f ↔ f ∈ t.functions ∧ f.key = .of c o n := by
  rw [lookup?, Option.bind_eq_some_iff]
  constructor
  · rintro ⟨i, hi, hf⟩
    obtain ⟨g, hg, hk, hgi⟩ := h.index_eq_some.1 hi
    obtain rfl : g = f := Option.some.inj ((h.get?_eq_some.2 ⟨hg, hgi⟩).symm.trans hf)
    exact ⟨hg, hk⟩
  · rintro ⟨hf, hk⟩
    exact ⟨f.id, h.index_eq_some.2 ⟨f, hf, hk, rfl⟩, h.get?_eq_some.2 ⟨hf, rfl⟩⟩

theorem isSome_lookup? (h : t.Numbered) :
    (t.lookup? c o n).isSome ↔ ∃ f ∈ t.functions, f.key = .of c o n := by
  simp only [Option.isSome_iff_exists, h.lookup?_eq_some]

theorem mem_functionsFor (h : t.Numbered) :
    i ∈ t.functionsFor c o ↔
      ∃ f, t.get? i = some f ∧ f.key.category = c ∧ f.key.owner = lower o := by
  simp only [functionsFor, List.mem_map, List.mem_filter, Bool.and_eq_true, beq_iff_eq, sameLetters,
    h.get?_eq_some]
  constructor
  · rintro ⟨f, ⟨hf, hc, ho⟩, rfl⟩
    exact ⟨f, ⟨hf, rfl⟩, hc, ho⟩
  · rintro ⟨f, ⟨hf, rfl⟩, hc, ho⟩
    exact ⟨f, ⟨hf, hc, ho⟩, rfl⟩

theorem functionsFor_sorted (h : t.Numbered) : (t.functionsFor c o).Pairwise (· < ·) := by
  have hs : (t.functionsFor c o).Sublist (t.functions.map (·.id)) := List.filter_sublist.map _
  exact (h.ids ▸ List.pairwise_lt_range).sublist hs

theorem agrees (h : t.Numbered) {known : FunctionKey → Prop}
    (hc : ∀ {k}, (∃ f ∈ t.functions, f.key = k) ↔ known k) : t.Agrees known where
  toNumbered := h
  complete := hc
  get := h.get?_eq_some
  found := h.isSome_lookup?.trans hc
  lookup := by simp [h.lookup?_eq_some, h.get?_eq_some]
  casing ho := by rw [lookup?, lookup?, FunctionKey.of_eq_of_sameLetters ho]
  sorted := h.functionsFor_sorted
  owned := h.mem_functionsFor

end Numbered

namespace Entries

/-- The entries have the known keys, and each stands under the key of its owner as written. -/
structure Holds (entries : Entries) (known : FunctionKey → Prop) : Prop where
  mem {k : FunctionKey} : k ∈ entries ↔ known k
  spelled {k : FunctionKey} {v : String × Int} :
    entries[k]? = some v → .of k.category v.1 k.name = k

namespace Holds

variable {entries : Entries} {known known' : FunctionKey → Prop} {c : Category} {o n : String}
  {p : Int}

theorem congr (h : entries.Holds known) (hk : ∀ k, known k ↔ known' k) : entries.Holds known' :=
  ⟨fun {k} => h.mem.trans (hk k), h.spelled⟩

theorem empty : Holds {} fun _ => False := by
  constructor <;> simp

theorem insert (h : entries.Holds known) :
    Holds (entries.insert (.of c o n) (o, p)) fun k => known k ∨ .of c o n = k where
  mem := by simp [h.mem, or_comm]
  spelled {k v} hv := by
    rw [Std.ExtTreeMap.getElem?_insert] at hv
    split at hv
    next hk =>
      obtain rfl := Std.LawfulEqCmp.compare_eq_iff_eq.1 hk
      cases hv
      rfl
    next => exact h.spelled hv

theorem insertIfNew (h : entries.Holds known) :
    Holds (entries.insertIfNew (.of c o n) (o, p)) fun k => known k ∨ .of c o n = k where
  mem := by simp [h.mem, or_comm]
  spelled {k v} hv := by
    rw [Std.ExtTreeMap.getElem?_insertIfNew] at hv
    split at hv
    next hk =>
      obtain rfl := Std.LawfulEqCmp.compare_eq_iff_eq.1 hk.1
      cases hv
      rfl
    next => exact h.spelled hv

/-- What each step brings is there behind all of them. -/
theorem foldl {β : Type} {f : Entries → β → Entries} {l : List β} (key : β → FunctionKey → Prop)
    (hf : ∀ (entries : Entries) (known : FunctionKey → Prop), entries.Holds known → ∀ b ∈ l,
      Holds (f entries b) fun k => known k ∨ key b k) (h : entries.Holds known) :
    Holds (l.foldl f entries) fun k => known k ∨ ∃ b ∈ l, key b k := by
  induction l generalizing entries known with
  | nil => exact h.congr (by simp)
  | cons b l ih =>
    have hb := hf entries known h b List.mem_cons_self
    have hl := ih (fun es known hes b hb => hf es known hes b (List.mem_cons_of_mem _ hb)) hb
    exact hl.congr fun k => by simp [or_assoc]

theorem keys_ofEntries (h : entries.Holds known) :
    (ofEntries entries).functions.map (·.key) = entries.keys := by
  rw [← Std.ExtTreeMap.map_fst_toList_eq_keys]
  refine List.ext_getElem? fun i => ?_
  simp only [ofEntries, List.map_map, List.getElem?_map, List.getElem?_zipIdx, Option.map_map]
  refine Option.map_congr ?_
  rintro ⟨k, v⟩ he
  exact h.spelled (Std.ExtTreeMap.mem_toList_iff_getElem?_eq_some.1 (List.mem_of_getElem? he))

theorem agrees (h : entries.Holds known) : (ofEntries entries).Agrees known := by
  have hn : (ofEntries entries).Numbered :=
    ⟨by simp [ofEntries, Function.comp_def, List.range_eq_range'],
      h.keys_ofEntries ▸ Std.ExtTreeMap.ordered_keys⟩
  refine hn.agrees fun {k} => ?_
  rw [← h.mem, ← Std.ExtTreeMap.mem_keys, ← h.keys_ofEntries, List.mem_map]

end Holds

end Entries

/-- The key of the function in a file, if the file is named like one. -/
def fileKey? (c : Category) (file : String) : Option FunctionKey :=
  (splitFunctionName? file).map fun (owner, name) => .of c owner name

/-- The entry for a file, if it is named like a function and can be read. -/
def entryIn? (source : ScriptSource) (c : Category) (file : String) :
    Option (FunctionKey × String × Int) := do
  let (owner, name) ← splitFunctionName? file
  let text ← source.load? c file
  let count ← (parameterCount text).toOption
  return (.of c owner name, owner, count.getD 0)

def Readable (source : ScriptSource) (c : Category) (file : String) : Prop :=
  (fileKey? c file).isSome → (entryIn? source c file).isSome

namespace Entries

def addFile (source : ScriptSource) (c : Category) (entries : Entries) (file : String) : Entries :=
  (entryIn? source c file).elim entries fun (k, v) => entries.insert k v

variable {source : ScriptSource} {c : Category} {entries : Entries} {file : String}

theorem entryIn?_eq_some {k : FunctionKey} {v : String × Int}
    (h : entryIn? source c file = some (k, v)) :
    fileKey? c file = some k ∧ ∃ n, k = .of c v.1 n := by
  simp only [entryIn?, Option.bind_eq_bind, Option.bind_eq_some_iff] at h
  obtain ⟨⟨o, n⟩, hs, text, -, count, -, he⟩ := h
  cases he
  exact ⟨by simp [fileKey?, hs], n, rfl⟩

theorem Holds.addFile {known : FunctionKey → Prop} (h : entries.Holds known)
    (hr : Readable source c file) :
    Holds (entries.addFile source c file) fun k => known k ∨ fileKey? c file = some k := by
  unfold Entries.addFile
  cases he : entryIn? source c file with
  | none =>
    have hn : fileKey? c file = none := by simpa [Readable, he] using hr
    exact h.congr (by simp [hn])
  | some e =>
    obtain ⟨k, o, p⟩ := e
    obtain ⟨hk, n, rfl⟩ := entryIn?_eq_some he
    exact h.insert.congr (by simp [hk])

/-- Files with different keys are added in any order. -/
theorem addFile_comm {file' : String}
    (h : (fileKey? c file).isSome → fileKey? c file = fileKey? c file' → file = file') :
    (entries.addFile source c file).addFile source c file' =
      (entries.addFile source c file').addFile source c file := by
  unfold Entries.addFile
  cases he : entryIn? source c file with
  | none => simp
  | some e =>
    cases he' : entryIn? source c file' with
    | none => simp
    | some e' =>
      obtain ⟨k, v⟩ := e
      obtain ⟨k', v'⟩ := e'
      by_cases hk : k = k'
      · subst hk
        have hf := (entryIn?_eq_some he).1
        obtain rfl := h (by simp [hf]) (hf.trans (entryIn?_eq_some he').1.symm)
        rw [Option.some.inj (he.symm.trans he')]
      · refine Std.ExtTreeMap.ext_getElem? fun j => ?_
        simp only [Option.elim_some, Std.ExtTreeMap.getElem?_insert,
          Std.LawfulEqCmp.compare_eq_iff_eq]
        grind

end Entries

section Scan

variable {source : ScriptSource} {c : Category} {entries entries' : Entries} {file : String}
  {files : List String} {k : FunctionKey}

theorem scanFile_eq_ok : scanFile source c entries file = .ok entries' ↔
    Readable source c file ∧ entries' = entries.addFile source c file := by
  unfold scanFile Entries.addFile
  split
  next hs => simp [Readable, fileKey?, entryIn?, hs, eq_comm]
  next o n hs =>
    split
    next hl => simp [Readable, fileKey?, entryIn?, hs, hl]
    next text hl =>
      split
      next hp => simp [Readable, fileKey?, entryIn?, hs, hl, hp, Except.toOption]
      next hp => simp [Readable, fileKey?, entryIn?, hs, hl, hp, Except.toOption, eq_comm]

theorem bind_eq_ok {ε α β : Type} {x : Except ε α} {f : α → Except ε β} {b : β} :
    x >>= f = .ok b ↔ ∃ a, x = .ok a ∧ f a = .ok b := by
  cases x <;> simp [bind, Except.bind]

theorem foldlM_scanFile_eq_ok : files.foldlM (scanFile source c) entries = .ok entries' ↔
    (∀ file ∈ files, Readable source c file) ∧
      entries' = files.foldl (Entries.addFile source c) entries := by
  induction files generalizing entries with
  | nil => simp [pure, Except.pure, eq_comm]
  | cons file files ih =>
    simp only [List.foldlM_cons, bind_eq_ok, scanFile_eq_ok, ih, List.forall_mem_cons,
      List.foldl_cons]
    grind

theorem scanCategory_eq_ok : scanCategory source entries c = .ok entries' ↔
    ∃ files, source.list c = .ok files ∧ (∀ file ∈ files, Readable source c file) ∧
      entries' = files.foldl (Entries.addFile source c) entries := by
  simp only [scanCategory, bind_eq_ok, foldlM_scanFile_eq_ok]

theorem scan_eq_ok {declared : List DeclaredFunction} {t : FunctionTable} :
    scan source declared = .ok t ↔ ∃ entries,
      Category.functions.foldlM (scanCategory source) (declaredEntries declared) = .ok entries ∧
        ofEntries entries = t := by
  simp [scan, bind_eq_ok, pure, Except.pure]

/-- A function file with the key is in the listing of its category. -/
def Listed (source : ScriptSource) (c : Category) (k : FunctionKey) : Prop :=
  ∃ files, source.list c = .ok files ∧ ∃ file ∈ files, fileKey? c file = some k

theorem holds_scanCategory {known : FunctionKey → Prop} (hs : entries.Holds known)
    (h : scanCategory source entries c = .ok entries') :
    entries'.Holds fun k => known k ∨ Listed source c k := by
  obtain ⟨files, hl, hr, rfl⟩ := scanCategory_eq_ok.1 h
  have hf := hs.foldl (fun file k => fileKey? c file = some k)
    fun _ _ hes file hfile => hes.addFile (hr file hfile)
  exact hf.congr fun k => by simp [Listed, hl]

theorem holds_foldlM_scanCategory {known : FunctionKey → Prop} {cs : List Category}
    (hs : entries.Holds known) (h : cs.foldlM (scanCategory source) entries = .ok entries') :
    entries'.Holds fun k => known k ∨ ∃ c ∈ cs, Listed source c k := by
  induction cs generalizing entries known with
  | nil =>
    cases h
    exact hs.congr (by simp)
  | cons c cs ih =>
    rw [List.foldlM_cons, bind_eq_ok] at h
    obtain ⟨es, hc, h⟩ := h
    exact (ih (holds_scanCategory hs hc) h).congr fun k => by simp [or_assoc]

end Scan

theorem holds_declaredEntries (declared : List DeclaredFunction) :
    (declaredEntries declared).Holds fun k =>
      ∃ d ∈ declared, .of d.category d.owner d.name = k := by
  have h := Entries.Holds.empty.foldl (l := declared)
    (f := fun t d => t.insertIfNew (.of d.category d.owner d.name) (d.owner, undefinedParameters))
    (fun d k => .of d.category d.owner d.name = k) fun _ _ h _ _ => h.insertIfNew
  exact h.congr (by simp)

theorem ofList_agrees (entries : List (Category × String × String × Int)) :
    (ofList entries).Agrees fun k => ∃ e ∈ entries, .of e.1 e.2.1 e.2.2.1 = k := by
  have h := Entries.Holds.empty.foldl (l := entries)
    (f := fun t e => t.insert (.of e.1 e.2.1 e.2.2.1) (e.2.1, e.2.2.2))
    (fun e k => .of e.1 e.2.1 e.2.2.1 = k) fun _ _ h _ _ => h.insert
  exact (h.congr (by simp)).agrees

/-- The table holds the declared functions and those in the files. -/
theorem scan_agrees {source : ScriptSource} {declared : List DeclaredFunction} {t : FunctionTable}
    (h : scan source declared = .ok t) :
    t.Agrees fun k => (∃ d ∈ declared, .of d.category d.owner d.name = k) ∨
      ∃ c ∈ Category.functions, Listed source c k := by
  obtain ⟨es, hes, rfl⟩ := scan_eq_ok.1 h
  exact (holds_foldlM_scanCategory (holds_declaredEntries declared) hes).agrees

section Reordered

/-- The same scripts, listed in another order. -/
structure Reordered (source source' : ScriptSource) : Prop where
  load : source'.load? = source.load?
  list (c : Category) : source'.list c = source.list c ∨
    ∃ files files', source.list c = .ok files ∧ source'.list c = .ok files' ∧ files.Perm files'

/-- No two files of a listing have the same key. -/
def Distinct (source : ScriptSource) : Prop :=
  ∀ c ∈ Category.functions, ∀ files, source.list c = .ok files →
    ∀ file ∈ files, ∀ file' ∈ files,
      (fileKey? c file).isSome → fileKey? c file = fileKey? c file' → file = file'

variable {source source' : ScriptSource} {c : Category} {entries entries' : Entries}

theorem Reordered.entryIn?_eq (h : Reordered source source') :
    entryIn? source' = entryIn? source := by
  funext c file
  simp only [entryIn?, h.load]

theorem Reordered.scanCategory_iff (h : Reordered source source') (hd : Distinct source)
    (hc : c ∈ Category.functions) :
    scanCategory source' entries c = .ok entries' ↔
      scanCategory source entries c = .ok entries' := by
  have hr : Readable source' = Readable source := by
    funext c file
    simp only [Readable, h.entryIn?_eq]
  have ha : Entries.addFile source' = Entries.addFile source := by
    funext c entries file
    simp only [Entries.addFile, h.entryIn?_eq]
  rw [scanCategory_eq_ok, scanCategory_eq_ok, hr, ha]
  obtain hl | ⟨files, files', hl, hl', hp⟩ := h.list c
  · rw [hl]
  · have hfold := hp.foldl_eq' (f := Entries.addFile source c) (fun file hf file' hf' es =>
      Entries.addFile_comm (hd c hc files hl file hf file' hf')) entries
    simp [hl, hl', hfold, hp.mem_iff]

theorem Reordered.foldlM_iff (h : Reordered source source') (hd : Distinct source)
    {cs : List Category} (hcs : ∀ c ∈ cs, c ∈ Category.functions) :
    cs.foldlM (scanCategory source') entries = .ok entries' ↔
      cs.foldlM (scanCategory source) entries = .ok entries' := by
  induction cs generalizing entries with
  | nil => rfl
  | cons c cs ih =>
    obtain ⟨hc, hcs⟩ := List.forall_mem_cons.1 hcs
    simp only [List.foldlM_cons, bind_eq_ok, h.scanCategory_iff hd hc, ih hcs]

theorem Reordered.scan_iff (h : Reordered source source') (hd : Distinct source)
    {declared : List DeclaredFunction} {t : FunctionTable} :
    scan source' declared = .ok t ↔ scan source declared = .ok t := by
  simp only [scan_eq_ok, h.foldlM_iff hd fun _ hc => hc]

end Reordered

/-- However a table comes about, its numbers, names and owners agree; and a source makes the same
table, or none, in whatever order it lists its files, unless two of them have the same key. -/
theorem names_and_numbers_agree :
    (∀ entries, (ofList entries).Agrees fun k => ∃ e ∈ entries, .of e.1 e.2.1 e.2.2.1 = k) ∧
    (∀ {source declared t}, scan source declared = .ok t →
      t.Agrees fun k => (∃ d ∈ declared, .of d.category d.owner d.name = k) ∨
        ∃ c ∈ Category.functions, Listed source c k) ∧
    ∀ {source source'}, Reordered source source' → Distinct source →
      ∀ declared t, scan source' declared = .ok t ↔ scan source declared = .ok t :=
  ⟨ofList_agrees, scan_agrees, fun h hd _ _ => h.scan_iff hd⟩

section Example

/-- Two scripts of entities, listed as given. -/
def doorScripts (files : List String) : ScriptSource where
  list c := .ok (if c = .entity then files else [])
  load? _ _ := some "exit()"

def doorLock : DeclaredFunction := ⟨.entity, "Door", "lock"⟩

/-- Both orders give one table, in which `door.open` has the last number. -/
theorem names_and_numbers_agree_door :
    ∃ t, scan (doorScripts ["door.open", "Chest.take"]) [doorLock] = .ok t ∧
      scan (doorScripts ["Chest.take", "door.open"]) [doorLock] = .ok t ∧
      (t.get? 2).map (·.key) = some (.of .entity "DOOR" "open") ∧
      t.lookup? .entity "DOOR" "open" = t.get? 2 := by
  have hd : Distinct (doorScripts ["door.open", "Chest.take"]) := by
    intro c _ files hfiles
    cases hfiles
    cases c <;> decide +kernel
  have hr : Reordered (doorScripts ["door.open", "Chest.take"])
      (doorScripts ["Chest.take", "door.open"]) := by
    refine ⟨rfl, fun c => .inr ⟨_, _, rfl, rfl, ?_⟩⟩
    cases c with
    | entity => exact .swap ..
    | item => exact .nil
    | behavior => exact .nil
  obtain ⟨t, ht, hk⟩ : ∃ t, scan (doorScripts ["door.open", "Chest.take"]) [doorLock] = .ok t ∧
      (t.get? 2).map (·.key) = some (.of .entity "DOOR" "open") := by
    have h : ((scan (doorScripts ["door.open", "Chest.take"]) [doorLock]).toOption.bind
        (·.get? 2)).map (·.key) = some (.of .entity "DOOR" "open") := by decide +kernel
    cases hs : scan (doorScripts ["door.open", "Chest.take"]) [doorLock] with
    | error e => simp [hs, Except.toOption] at h
    | ok t => exact ⟨t, rfl, by simpa [hs, Except.toOption] using h⟩
  have ha := names_and_numbers_agree.2.1 ht
  obtain ⟨f, hf, hfk⟩ := Option.map_eq_some_iff.1 hk
  refine ⟨t, ht, (names_and_numbers_agree.2.2 hr hd [doorLock] t).2 ht, hk, ?_⟩
  have hid : f.id = 2 := (ha.get.1 hf).2
  rw [hf]
  exact ha.lookup.2 ⟨hid ▸ hf, hfk⟩

end Example

end FunctionTable

end TileScript
