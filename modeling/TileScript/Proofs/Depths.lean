import TileScript.Check
import TileScript.Proofs.Kind

/-! # Depths of lines

The check of a script keeps the blocks that are open before each line. If it finds no problem, the
number of open blocks goes up by one at an `if` and down by one at an `end`, an `else` stands in a
block, and no block is open at the end.
-/

namespace TileScript

open Text

namespace Check

/-- The blocks open before line `i` of some lines. -/
def openedBefore (number : Nat) (opened : List Nat) :
    List (List Char) → Nat → Except ScriptError (List Nat)
  | _, 0 => .ok opened
  | [], _ + 1 => .ok opened
  | l :: ls, i + 1 => do
    let opened' ← statement number opened (.ofLine l)
    openedBefore (number + 1) opened' ls i

/-- The number of blocks open before line `i` of a script, counted from zero. -/
def depthAt (source : String) (i : Nat) : Nat :=
  match openedBefore 1 [] (Text.lines source.toList) i with
  | .ok opened => opened.length
  | .error _ => 0

end Check

namespace Statement

/-- What a line does to the number of open blocks. -/
def Kind.Steps : Kind → Nat → Nat → Prop
  | .branch, d, e => e = d + 1
  | .close, d, e => d = e + 1
  | .otherwise, d, e => 0 < d ∧ e = d
  | .blank, d, e | .declare, d, e | .assign, d, e | .bare, d, e => e = d

/-- Of a line that is no block keyword, it matters only whether it opens a block. -/
theorem Kind.Steps.congr {k l : Kind} {d e : Nat} (h : l.Steps d e) (hb : k = .branch ↔ l = .branch)
    (hk : k ≠ .close ∧ k ≠ .otherwise) (hl : l ≠ .close ∧ l ≠ .otherwise) : k.Steps d e := by
  cases k <;> cases l <;> simp_all [Steps]

end Statement

/-- Lines with the number of blocks open before each. -/
structure Profile (depth : Nat → Nat) (ls : List (List Char)) : Prop where
  start : depth 0 = 0
  stop : depth ls.length = 0
  step {i : Nat} {l : List Char} : ls[i]? = some l →
    (Statement.ofLine l).kind.Steps (depth i) (depth (i + 1))

namespace Check

theorem statement_steps {number : Nat} {opened opened' : List Nat} {st : Statement}
    (h : statement number opened st = .ok opened') :
    st.kind.Steps opened.length opened'.length := by
  cases st with
  | close =>
    cases opened with
    | nil => cases h
    | cons n opened =>
      cases h
      rfl
  | otherwise =>
    cases opened with
    | nil => cases h
    | cons n opened =>
      cases h
      exact ⟨Nat.zero_lt_succ _, rfl⟩
  | branch c =>
    rw [statement] at h
    cases hc : condition c with
    | error e => simp [hc, bind, Except.bind] at h
    | ok b =>
      rw [hc] at h
      cases h
      rfl
  | declare d =>
    rw [statement] at h
    cases hd : Statement.splitDefinition d with
    | error e => simp [hd, bind, Except.bind] at h
    | ok x =>
      simp only [hd, bind, Except.bind] at h
      split at h
      · cases h
      · cases h
        rfl
  | blank | assign | bare =>
    cases h
    rfl

variable {number : Nat} {opened : List Nat} {ls : List (List Char)}

/-- Lines that are found in order can be followed to their end, where no block is open. -/
theorem exists_openedBefore (h : lines number opened ls = .ok ()) (i : Nat) :
    ∃ opened', openedBefore number opened ls i = .ok opened' ∧ (ls.length ≤ i → opened' = []) := by
  induction ls generalizing number opened i with
  | nil =>
    cases opened with
    | nil => cases i <;> exact ⟨[], rfl, fun _ => rfl⟩
    | cons n opened => cases h
  | cons l ls ih =>
    cases i with
    | zero => exact ⟨opened, rfl, fun hi => absurd hi (by simp)⟩
    | succ i =>
      unfold lines at h
      cases hs : statement number opened (.ofLine l) with
      | error e => simp [hs] at h
      | ok opened' =>
        obtain ⟨opened'', ho, hend⟩ := ih (by simpa [hs] using h) i
        refine ⟨opened'', ?_, fun hi => hend (Nat.le_of_succ_le_succ hi)⟩
        simpa [openedBefore, hs, bind, Except.bind] using ho

/-- From one line to the next. -/
theorem openedBefore_succ {i : Nat} {l : List Char} {opened' : List Nat} (hl : ls[i]? = some l)
    (h : openedBefore number opened ls i = .ok opened') :
    openedBefore number opened ls (i + 1) = statement (number + i) opened' (.ofLine l) := by
  induction ls generalizing number opened i with
  | nil => simp at hl
  | cons m ls ih =>
    cases i with
    | zero =>
      cases h
      obtain rfl : m = l := by simpa using hl
      rw [openedBefore, Nat.add_zero]
      cases statement number opened' (.ofLine m) <;> rfl
    | succ i =>
      unfold openedBefore at h ⊢
      cases hs : statement number opened (.ofLine m) with
      | error e => simp [hs, bind, Except.bind] at h
      | ok opened₁ =>
        simp only [hs, bind, Except.bind] at h ⊢
        rw [ih (by simpa using hl) h, Nat.add_assoc, Nat.add_comm 1]

end Check

theorem Statement.ofLine_trim (line : List Char) : ofLine (trim line) = ofLine line := by
  unfold ofLine
  rw [trim_trim]

/-- The depths that the check of a script counts. -/
theorem profile_of_check {source : String} (h : check source = .ok ()) :
    Profile (Check.depthAt source) (trimmedLines source) where
  start := rfl
  stop := by
    obtain ⟨opened, ho, hend⟩ := Check.exists_openedBefore h (trimmedLines source).length
    rw [Check.depthAt, ho]
    simp [hend (by simp [trimmedLines])]
  step {i l} hl := by
    obtain ⟨m, hm, rfl⟩ : ∃ m, (Text.lines source.toList)[i]? = some m ∧ trim m = l := by
      simpa [trimmedLines] using hl
    obtain ⟨opened, ho, -⟩ := Check.exists_openedBefore h i
    obtain ⟨opened', ho', -⟩ := Check.exists_openedBefore h (i + 1)
    have hs := ho'
    rw [Check.openedBefore_succ hm ho] at hs
    rw [Check.depthAt, Check.depthAt, ho, ho', Statement.ofLine_trim]
    exact Check.statement_steps hs

end TileScript
