import TileScript.Proofs.CallReturn
import TileScript.Proofs.Coupling
import TileScript.Proofs.Lines
import TileScript.Proofs.TypeFunctions
import TileScript.Scheduler

/-! # Functions and their scripts

A function is defined exactly if a file with its name is listed. It takes its owner, its name and
its parameters from one such file, so its script is found under the name it is loaded by, however
often the owner is spelled and in whatever case.
-/

namespace TileScript

open Text

/-- What stands behind the word in the directives of a script, from top to bottom. -/
def ParameterDirective.arguments (source : String) : List (List Char) :=
  (trimmedLines source).filterMap (afterPrefix? "$SetNumParams".toList)

/-- A script asks for these many parameters: all its directives can be read, and the last one counts
if there is one. -/
def AsksFor (source : String) (parameters : Int) : Prop :=
  ∃ counts, (ParameterDirective.arguments source).mapM ParameterDirective.count? = some counts ∧
    parameters = counts.getLast?.getD 0

namespace ParameterDirective

theorem scan_eq_ok {found count : Option Nat} {lines : List (List Char)} :
    scan found lines = .ok count ↔
      ∃ counts, (lines.filterMap (afterPrefix? "$SetNumParams".toList)).mapM count? = some counts ∧
        counts.getLast?.or found = count := by
  induction lines generalizing found with
  | nil =>
    rw [scan, List.filterMap_nil, List.mapM_nil, Option.pure_def]
    simp
  | cons line lines ih =>
    rw [scan, List.filterMap_cons]
    generalize afterPrefix? "$SetNumParams".toList = argument? at ih ⊢
    cases argument? line with
    | none => exact ih
    | some argument =>
      dsimp only
      rw [List.mapM_cons]
      cases hn : count? argument with
      | none => simp
      | some n =>
        have hlast (counts : List Nat) :
            counts.getLast?.or (some n) = (n :: counts).getLast?.or found := by
          rw [List.getLast?_cons]
          cases counts.getLast? <;> rfl
        simp [ih, hlast, Option.bind_eq_some_iff]

end ParameterDirective

theorem asksFor_of_parameterCount {source : String} {count : Option Nat}
    (h : parameterCount source = .ok count) : AsksFor source (count.getD 0) := by
  obtain ⟨counts, hc, rfl⟩ := ParameterDirective.scan_eq_ok.1 h
  exact ⟨counts, hc, by simp⟩

/-- A file named like a function has the name of the owner, a dot, and the name of the function. -/
theorem of_splitFunctionName? {file owner name : String}
    (h : splitFunctionName? file = some (owner, name)) : file = owner ++ "." ++ name := by
  unfold splitFunctionName? at h
  split at h
  · next o n hs =>
    split at h
    · cases h
    · cases h
      rw [← String.toList_inj, (of_splitOnce? hs).1]
      simp
  · cases h

namespace FunctionTable

/-- Of the entries exactly those with a key in `read` are defined, and each of them comes from one
file. -/
structure Entries.Backed (source : ScriptSource) (read : FunctionKey → Prop) (entries : Entries) :
    Prop where
  defined {k : FunctionKey} {v : String × Int} : entries[k]? = some v → (0 ≤ v.2 ↔ read k)
  script {k : FunctionKey} {v : String × Int} : entries[k]? = some v → read k →
    ∃ file, entryIn? source k.category file = some (k, v)

theorem nonneg_of_entryIn? {source : ScriptSource} {c : Category} {file : String} {k : FunctionKey}
    {v : String × Int} (h : entryIn? source c file = some (k, v)) : 0 ≤ v.2 := by
  simp only [entryIn?, Option.bind_eq_bind, Option.bind_eq_some_iff] at h
  obtain ⟨_, -, _, -, count, -, he⟩ := h
  cases he
  exact Int.natCast_nonneg _

namespace Entries.Backed

variable {source : ScriptSource} {read read' : FunctionKey → Prop} {entries entries' : Entries}
  {c : Category} {file : String}

theorem congr (h : entries.Backed source read) (hr : ∀ k, read k ↔ read' k) :
    entries.Backed source read' :=
  ⟨fun hv => (h.defined hv).trans (hr _), fun hv hk => h.script hv ((hr _).2 hk)⟩

theorem declared (source : ScriptSource) (declared : List DeclaredFunction) :
    (declaredEntries declared).Backed source fun _ => False := by
  have hnew {entries : Entries} {k k' : FunctionKey} {o : String}
      (h : ∀ v, entries[k]? = some v → v.2 = undefinedParameters) :
      ∀ v, (entries.insertIfNew k' (o, undefinedParameters))[k]? = some v →
        v.2 = undefinedParameters := by
    intro v hv
    rw [Std.ExtTreeMap.getElem?_insertIfNew] at hv
    split at hv
    · cases hv
      rfl
    · exact h v hv
  have hv {k : FunctionKey} : ∀ v, (declaredEntries declared)[k]? = some v →
      v.2 = undefinedParameters := by
    unfold declaredEntries
    rw [← List.foldr_reverse]
    induction declared.reverse with
    | nil => simp
    | cons d ds ih => exact hnew ih
  exact ⟨fun h => by simp [hv _ h, undefinedParameters], fun _ h => h.elim⟩

/-- The entry of a file takes the place of the one with the same key. -/
theorem addFile (h : entries.Backed source read) (hf : Readable source c file) :
    (entries.addFile source c file).Backed source fun k => read k ∨ fileKey? c file = some k := by
  unfold Entries.addFile
  cases he : entryIn? source c file with
  | none =>
    have hn : fileKey? c file = none := by simpa [Readable, he] using hf
    exact h.congr (by simp [hn])
  | some e =>
    obtain ⟨k, v⟩ := e
    have hk := (entryIn?_eq_some he).1
    have hc : k.category = c := by
      obtain ⟨-, n, rfl⟩ := entryIn?_eq_some he
      rfl
    have hget {k' : FunctionKey} {v' : String × Int}
        (hv : (entries.insert k v)[k']? = some v') :
        (k = k' ∧ v = v') ∨ k ≠ k' ∧ entries[k']? = some v' := by
      rw [Std.ExtTreeMap.getElem?_insert] at hv
      grind
    constructor
    · intro k' v' hv
      obtain ⟨rfl, rfl⟩ | ⟨hne, hv⟩ := hget hv
      · simp [hk, nonneg_of_entryIn? he]
      · simp [h.defined hv, hk, hne]
    · intro k' v' hv hr
      obtain ⟨rfl, rfl⟩ | ⟨hne, hv⟩ := hget hv
      · exact ⟨file, hc ▸ he⟩
      · exact h.script hv (by simpa [hk, hne] using hr)

/-- The same for all files of a listing. -/
theorem foldl_addFile {files : List String} (h : entries.Backed source read)
    (hf : ∀ file ∈ files, Readable source c file) :
    Backed source (fun k => read k ∨ ∃ file ∈ files, fileKey? c file = some k)
      (files.foldl (Entries.addFile source c) entries) := by
  induction files generalizing entries read with
  | nil => exact h.congr (by simp)
  | cons file files ih =>
    obtain ⟨hf, hfs⟩ := List.forall_mem_cons.1 hf
    exact (ih (h.addFile hf) hfs).congr fun k => by simp [or_assoc]

theorem foldlM_scanCategory {cs : List Category} (h : entries.Backed source read)
    (hs : cs.foldlM (scanCategory source) entries = .ok entries') :
    entries'.Backed source fun k => read k ∨ ∃ c ∈ cs, Listed source c k := by
  induction cs generalizing entries read with
  | nil =>
    cases hs
    exact h.congr (by simp)
  | cons c cs ih =>
    rw [List.foldlM_cons, bind_eq_ok] at hs
    obtain ⟨es, hc, hs⟩ := hs
    obtain ⟨files, hl, hr, rfl⟩ := scanCategory_eq_ok.1 hc
    exact (ih (h.foldl_addFile hr) hs).congr fun k => by simp [Listed, hl, or_assoc]

end Entries.Backed

theorem fileKey?_eq_key {f : FunctionDescriptor} {file : String} :
    fileKey? f.category file = some f.key ↔
      ∃ owner, splitFunctionName? file = some (owner, f.name) ∧
        sameLetters owner f.owner = true := by
  simp only [fileKey?, Option.map_eq_some_iff, FunctionDescriptor.key, FunctionKey.of,
    FunctionKey.mk.injEq, sameLetters, beq_iff_eq, true_and]
  constructor
  · rintro ⟨⟨o, n⟩, hs, ho, rfl⟩
    exact ⟨o, hs, ho⟩
  · rintro ⟨o, hs, ho⟩
    exact ⟨(o, f.name), hs, ho, rfl⟩

section Scan

variable {source : ScriptSource} {declared : List DeclaredFunction} {t : FunctionTable}
  {f : FunctionDescriptor}

/-- The table has the key of each of its functions among the entries it is made of. -/
theorem exists_entries (h : scan source declared = .ok t) (hf : f ∈ t.functions) :
    ∃ entries : Entries,
      (entries.Backed source fun k => ∃ c ∈ Category.functions, Listed source c k) ∧
        entries[f.key]? = some (f.owner, f.parameterCount) := by
  obtain ⟨entries, he, rfl⟩ := scan_eq_ok.1 h
  refine ⟨entries, ?_, ?_⟩
  · exact ((Entries.Backed.declared source declared).foldlM_scanCategory he).congr (by simp)
  · have hs := holds_foldlM_scanCategory (holds_declaredEntries declared) he
    unfold ofEntries at hf
    obtain ⟨⟨⟨k, v⟩, i⟩, hm, rfl⟩ := List.mem_map.1 hf
    have hv : entries[k]? = some v :=
      Std.ExtTreeMap.mem_toList_iff_getElem?_eq_some.1 (List.fst_mem_of_mem_zipIdx hm)
    rw [FunctionDescriptor.key, hs.spelled hv, hv]

/-- A function is defined exactly if a file with its key is listed. -/
theorem isDefined_iff (h : scan source declared = .ok t) (hf : f ∈ t.functions)
    (hc : f.category ∈ Category.functions) :
    f.isDefined = true ↔ Listed source f.category f.key := by
  obtain ⟨entries, hb, hv⟩ := exists_entries h hf
  rw [FunctionDescriptor.isDefined, decide_eq_true_iff, hb.defined hv]
  constructor
  · rintro ⟨c, -, files, hl, file, hfile, hk⟩
    have hcf : c = f.category := by
      obtain ⟨_, -, hk⟩ := Option.map_eq_some_iff.1 hk
      exact congrArg FunctionKey.category hk
    subst hcf
    exact ⟨files, hl, file, hfile, hk⟩
  · exact fun hl => ⟨_, hc, hl⟩

/-- A defined function is loaded from the file it has its parameters from. -/
theorem exists_script (h : scan source declared = .ok t) (hf : f ∈ t.functions)
    (hd : f.isDefined = true) :
    ∃ text, source.load? f.category f.scriptName = some text ∧ AsksFor text f.parameterCount := by
  obtain ⟨entries, hb, hv⟩ := exists_entries h hf
  have hr := (hb.defined hv).1 (by simpa [FunctionDescriptor.isDefined] using hd)
  obtain ⟨file, he⟩ := hb.script hv hr
  simp only [entryIn?, Option.bind_eq_bind, Option.bind_eq_some_iff] at he
  obtain ⟨⟨o, n⟩, hs, text, hl, count, hp, he⟩ := he
  obtain ⟨hk, rfl, hcount⟩ : FunctionKey.of f.key.category o n = f.key ∧ o = f.owner ∧
      ((count.getD 0 : Nat) : Int) = f.parameterCount := by
    simpa using he
  obtain rfl : n = f.name := congrArg FunctionKey.name hk
  rw [of_splitFunctionName? hs] at hl
  refine ⟨text, hl, hcount ▸ asksFor_of_parameterCount ?_⟩
  cases hpc : parameterCount text with
  | error e => simp [hpc, Except.toOption] at hp
  | ok c => simpa [hpc, Except.toOption] using hp

end Scan

end FunctionTable

/-- A call of a function: of its script, in its category. -/
structure CallRequest.Calls (q : CallRequest) (f : FunctionDescriptor) : Prop where
  category : q.category = f.category
  script : q.script = f.scriptName

theorem Scheduler.spawn_ne_scriptNotFound {env : Environment} {q : CallRequest} {text : String}
    (h : env.source.load? q.category q.script = some text) (s : Scheduler) (caller : Fiber)
    (path : String) : s.spawn env caller q ≠ .error (.scriptNotFound path) := by
  intro he
  obtain he | ⟨hn, -⟩ | he := spawn_error he
  · cases he
  · cases h.symm.trans hn
  · cases he

theorem Fiber.activate_allows {env : Environment} {f g : Fiber} {forced : Bool} {w w' : World}
    {q : CallRequest} (h : f.activate env forced w = (.called q, g, w')) :
    env.Allows f.entity w' q := by
  have hself : env.Coupled env.systems f.entity f.authority Eq :=
    .of_eq fun name => Option.rel_self fun _ _ _ _ => rfl
  exact (h ▸ activate_coupled hself forced (Eq.refl w)).allows q rfl

/-- The functions of a type have its category. -/
theorem TypeFunctions.category_of_mem {α : Type} [TypeDescriptor α] {t : FunctionTable}
    (h : t.Numbered) {category : Category} {c : Catalog α} {id : UInt32} {i : Nat}
    {f : FunctionDescriptor} (hi : i ∈ (ofCatalog t category c).getD id [])
    (hf : t.get? i = some f) : f.category = category := by
  rw [Std.ExtTreeMap.getD_eq_getD_getElem?, getElem?_ofCatalog] at hi
  cases hl : c.last? id with
  | none => simp [hl] at hi
  | some τ =>
    obtain ⟨g, hg, hc, -⟩ := h.mem_functionsFor.1 (by simpa [hl] using hi)
    obtain rfl := Option.some.inj (hf.symm.trans hg)
    exact hc

/-- What a script may call is a defined function of its environment. -/
theorem Environment.Allows.exists_function {env : Environment} {own : EntityId} {w w₀ : World}
    {q : CallRequest} (h : env.Allows own w q) (hn : env.functions.Numbered)
    (hb : env.typeFunctions = .build w₀ env.functions) :
    ∃ f ∈ env.functions.functions, f.category ∈ Category.functions ∧ f.isDefined = true ∧
      q.Calls f := by
  have hmem {i : Nat} {f : FunctionDescriptor} (hf : env.functions.get? i = some f) :
      f ∈ env.functions.functions := List.mem_of_getElem? hf
  cases h with
  | @entity _ _ _ f _ _ _ _ _ ht =>
    obtain ⟨i, hi, hf⟩ := ht.registered
    rw [hb] at hi
    have hc := TypeFunctions.category_of_mem hn hi hf
    exact ⟨f, hmem hf, by simp [hc, Category.functions], ht.defined, hc.symm, rfl⟩
  | @item _ _ _ f _ _ _ _ _ ht =>
    obtain ⟨i, hi, hf⟩ := ht.registered
    rw [hb] at hi
    have hc := TypeFunctions.category_of_mem hn hi hf
    exact ⟨f, hmem hf, by simp [hc, Category.functions], ht.defined, hc.symm, rfl⟩

open FunctionTable

/-- In a table of a source a function of an entity or an item is defined exactly if a file of its
category is listed with its owner, up to the case of its letters, and its name. Then its script is
there under the name by which it is loaded, and asks for the parameters that the table tells. So a
call of it, and every call that scripts make with this table, finds its script. -/
theorem FunctionTable.defined_functions_load {source : ScriptSource}
    {declared : List DeclaredFunction} {t : FunctionTable} (h : scan source declared = .ok t) :
    (∀ f ∈ t.functions, f.category ∈ Category.functions →
      (f.isDefined = true ↔ ∃ files, source.list f.category = .ok files ∧ ∃ file ∈ files, ∃ owner,
        splitFunctionName? file = some (owner, f.name) ∧ sameLetters owner f.owner = true) ∧
      (f.isDefined = true →
        (∃ text, source.load? f.category f.scriptName = some text ∧ AsksFor text f.parameterCount) ∧
        ∀ (env : Environment) (s : Scheduler) (caller : Fiber) (q : CallRequest) (path : String),
          env.source = source → q.Calls f →
          s.spawn env caller q ≠ .error (.scriptNotFound path))) ∧
    ∀ (env : Environment) (w₀ : World), env.source = source → env.functions = t →
      env.typeFunctions = .build w₀ t →
      ∀ {f g : Fiber} {forced : Bool} {w w' : World} {q : CallRequest},
        f.activate env forced w = (.called q, g, w') →
        (∃ fn ∈ t.functions, fn.category ∈ Category.functions ∧ fn.isDefined = true ∧ q.Calls fn) ∧
        ∀ (s : Scheduler) (path : String), s.spawn env g q ≠ .error (.scriptNotFound path) := by
  have hload {f : FunctionDescriptor} (hf : f ∈ t.functions) (hd : f.isDefined = true)
      (env : Environment) (s : Scheduler) (caller : Fiber) (q : CallRequest) (path : String)
      (he : env.source = source) (hq : q.Calls f) :
      s.spawn env caller q ≠ .error (.scriptNotFound path) := by
    obtain ⟨text, hl, -⟩ := exists_script h hf hd
    rw [← he, ← hq.category, ← hq.script] at hl
    exact Scheduler.spawn_ne_scriptNotFound hl s caller path
  constructor
  · intro f hf hc
    refine ⟨?_, fun hd => ⟨exists_script h hf hd, hload hf hd⟩⟩
    rw [isDefined_iff h hf hc]
    simp only [Listed, fileKey?_eq_key]
  · rintro env w₀ rfl rfl hb f g forced w w' q ha
    obtain ⟨fn, hfn, hc, hd, hq⟩ :=
      (Fiber.activate_allows ha).exists_function (scan_agrees h).toNumbered hb
    exact ⟨⟨fn, hfn, hc, hd, hq⟩, fun s path => hload hfn hd env s g q path rfl hq⟩

section Example

/-- Two scripts that differ in the spelling of their owner, and in what they ask for. -/
def spelledScripts : ScriptSource where
  list c := .ok (if c = .entity then ["door.open", "DOOR.open"] else [])
  load? _ file := some (if file = "DOOR.open" then "$SetNumParams(3)\n$SetNumParams(1)\nexit()"
    else "exit()")

/-- The second script counts, whatever spelling is declared. -/
theorem FunctionTable.defined_functions_load_spellings :
    ∃ t, scan spelledScripts [⟨.entity, "Door", "open"⟩] = .ok t ∧
      ∃ f ∈ t.functions, f.scriptName = "DOOR.open" ∧ f.parameterCount = 1 ∧
        ∃ text, spelledScripts.load? .entity "DOOR.open" = some text ∧ AsksFor text 1 := by
  obtain ⟨t, ht⟩ : ∃ t, scan spelledScripts [⟨.entity, "Door", "open"⟩] = .ok t := ⟨_, rfl⟩
  obtain ⟨f, hf, hc, hn, hp⟩ : ∃ f ∈ t.functions, f.category = .entity ∧
      f.scriptName = "DOOR.open" ∧ f.parameterCount = 1 := by
    cases ht
    decide +kernel
  have hd : f.isDefined = true := by simp [FunctionDescriptor.isDefined, hp]
  have hs := (((defined_functions_load ht).1 f hf (hc ▸ by decide)).2 hd).1
  rw [hc, hn, hp] at hs
  exact ⟨t, ht, f, hf, hn, hp, hs⟩

end Example

end TileScript
