import TileScript.Chain.Nesting
import TileScript.Text.Blank

/-! # Statement chains

A statement such as `$Entity[2].open(1, "a").x` is a chain of segments between dots or colons.
`segments` takes a chain apart, `upToSegment` is the part of its text that ends with a given
segment, and `splitCall?` and `splitParams` take a call apart.
-/

namespace TileScript

open Text

/-- One link of a chain as written. -/
inductive Segment where
  /-- A name, a literal or a property. -/
  | accessor (text : List Char)
  /-- A call with its parameter list. -/
  | call (text : List Char)
  deriving DecidableEq, Repr

namespace Segment

def text : Segment → List Char
  | .accessor t | .call t => t

/-- A fragment with an opening parenthesis is a call, unless it begins as a quoted text. -/
def ofFragment (fragment : List Char) : Segment :=
  let t := trim fragment
  if t.head? != some '"' && t.contains '(' then .call t else .accessor t

@[simp] theorem text_ofFragment (fragment : List Char) : (ofFragment fragment).text = trim fragment := by
  unfold ofFragment
  dsimp only
  split <;> rfl

end Segment

namespace Chain

def isSeparator (c : Char) : Bool := c == '.' || c == ':'

/-- Whether a chain is cut at a character. -/
def cutsChain (n : Nesting) (c : Char) : Bool := n.isTop c && isSeparator c

/-- The pieces of a text between its top-level separators. -/
def fragments (cs : List Char) : List (List Char) := splitWhere cutsChain Nesting.step {} cs

/-- The segments of a statement. A separator at the end is followed by an empty accessor. -/
def segments (statement : List Char) : List Segment :=
  let t := trim statement
  if t.isEmpty then [] else (fragments t).map Segment.ofFragment

/-- The text before the top-level separator number `i`, counted from zero. -/
def keepFragments : Nesting → Nat → List Char → List Char
  | _, _, [] => []
  | n, i, c :: cs =>
    if cutsChain n c then
      match i with
      | 0 => []
      | i + 1 => c :: keepFragments (n.step c) i cs
    else c :: keepFragments (n.step c) i cs

/-- The text of a statement up to and including segment `i`. -/
def upToSegment (statement : List Char) (i : Nat) : List Char :=
  trimEnd (keepFragments {} i (trim statement))

/-- The name and the raw parameter text of `name(parameters)`. -/
def splitCall? (call : List Char) : Option (List Char × List Char) :=
  let t := trim call
  match t.dropWhile (· != '(') with
  | '(' :: inner =>
    if inner.getLast? = some ')' then some (trim (t.takeWhile (· != '(')), inner.dropLast) else none
  | _ => none

/-- Whether a parameter list is cut at a character. -/
def cutsParams (n : Nesting) (c : Char) : Bool := n.isTop c && c == ','

/-- The parameters between top-level commas; empty ones are dropped. -/
def splitParams (raw : List Char) : List (List Char) :=
  ((splitWhere cutsParams Nesting.step {} raw).map trim).filter (!·.isEmpty)

theorem length_text_le_of_mem_segments {statement : List Char} {s : Segment}
    (h : s ∈ segments statement) : s.text.length ≤ statement.length := by
  unfold segments at h
  dsimp only at h
  split at h
  · simp at h
  · obtain ⟨f, hf, rfl⟩ := List.mem_map.1 h
    rw [Segment.text_ofFragment]
    exact Nat.le_trans (length_trim_le f)
      (Nat.le_trans (length_le_of_mem_splitWhere _ _ hf) (length_trim_le statement))

theorem length_lt_of_splitCall? {call name raw : List Char}
    (h : splitCall? call = some (name, raw)) : raw.length < call.length := by
  unfold splitCall? at h
  dsimp only at h
  split at h
  · next inner hi =>
    split at h
    · cases h
      have h₁ := length_dropWhile_le (· != '(') (trim call)
      have h₂ := length_trim_le call
      rw [hi] at h₁
      simp only [List.length_cons, List.length_dropLast] at h₁ ⊢
      omega
    · cases h
  · cases h

theorem length_le_of_mem_splitParams {raw p : List Char} (h : p ∈ splitParams raw) :
    p.length ≤ raw.length := by
  obtain ⟨q, hq, rfl⟩ := List.mem_map.1 (List.mem_filter.1 h).1
  exact Nat.le_trans (length_trim_le q) (length_le_of_mem_splitWhere _ _ hq)

end Chain

end TileScript
