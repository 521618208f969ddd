/-! # Nesting of quotes and brackets

A separator counts only at the top level of a text: outside quotes and outside brackets. `Nesting`
is what a scan from the left knows at a character, and `splitWhere` cuts a text at the characters
such a scan picks.
-/

namespace TileScript

/-- Open brackets so far, and whether a quote is open. Stray closing brackets count below zero. -/
structure Nesting where
  depth : Int := 0
  quoted : Bool := false
  deriving DecidableEq, Repr, Inhabited

namespace Nesting

/-- Whether a character here is at the top level. A quote never is; an opening bracket is. -/
def isTop (n : Nesting) (c : Char) : Bool := c != '"' && !n.quoted && n.depth == 0

/-- The nesting behind a character. -/
def step (n : Nesting) (c : Char) : Nesting :=
  if c = '"' then { n with quoted := !n.quoted }
  else if n.quoted then n
  else if c = '(' ∨ c = '[' then { n with depth := n.depth + 1 }
  else if c = ')' ∨ c = ']' then { n with depth := n.depth - 1 }
  else n

end Nesting

namespace Text

variable {σ : Type} (cut : σ → Char → Bool) (next : σ → Char → σ)

/-- The pieces between the characters that `cut` picks, given the state of the scan there. -/
def splitWhere : σ → List Char → List (List Char)
  | _, [] => [[]]
  | s, c :: cs =>
    let pieces := splitWhere (next s c) cs
    if cut s c then [] :: pieces else pieces.modifyHead (c :: ·)

theorem splitWhere_ne_nil (s : σ) (cs : List Char) : splitWhere cut next s cs ≠ [] := by
  induction cs generalizing s with
  | nil => simp [splitWhere]
  | cons c cs ih =>
    rw [splitWhere]
    split
    · simp
    · obtain ⟨p, ps, h⟩ := List.exists_cons_of_ne_nil (ih (next s c))
      simp [h]

/-- Together the pieces hold every character but the cut ones. -/
theorem length_flatten_splitWhere (s : σ) (cs : List Char) :
    (splitWhere cut next s cs).flatten.length + (splitWhere cut next s cs).length =
      cs.length + 1 := by
  induction cs generalizing s with
  | nil => simp [splitWhere]
  | cons c cs ih =>
    have h := ih (next s c)
    obtain ⟨p, ps, hp⟩ := List.exists_cons_of_ne_nil (splitWhere_ne_nil cut next (next s c) cs)
    rw [hp] at h
    rw [splitWhere, hp]
    split <;> simp at h ⊢ <;> omega

theorem length_le_length_flatten {p : List Char} {ps : List (List Char)} (h : p ∈ ps) :
    p.length ≤ ps.flatten.length :=
  (List.sublist_flatten_of_mem h).length_le

theorem length_le_of_mem_splitWhere {s : σ} {p cs : List Char}
    (h : p ∈ splitWhere cut next s cs) : p.length ≤ cs.length := by
  have hs := length_flatten_splitWhere cut next s cs
  have hp := length_le_length_flatten h
  have := List.length_pos_of_mem h
  omega

theorem length_lt_of_mem_splitWhere {s : σ} {p cs : List Char}
    (h : p ∈ splitWhere cut next s cs) (h₂ : 2 ≤ (splitWhere cut next s cs).length) :
    p.length < cs.length := by
  have hs := length_flatten_splitWhere cut next s cs
  have hp := length_le_length_flatten h
  omega

end Text

end TileScript
