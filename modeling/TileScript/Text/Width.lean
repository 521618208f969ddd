import TileScript.Text.Following

/-! # Width of text

How many columns a text takes on a screen with letters of equal width. A text is measured from its
end, since the columns of a character depend on what follows. The style of a character may be chosen
by a selector behind it.
-/

namespace TileScript.Text

/-- A character that selects the style of the one before it. -/
inductive Selector where
  | picture
  | text
  | fullWidth
  deriving DecidableEq, Repr

def Selector.ofCode? (n : Nat) : Option Selector :=
  if n = 0xFE0F then some .picture
  else if n = 0xFE0E then some .text
  else if n = 0xFE01 then some .fullWidth
  else none

/-- What a character is measured with: the selectors behind it, the nearest one first, and what
comes then. -/
structure Context where
  selectors : List Selector := []
  following : Following := .plain
  deriving DecidableEq, Repr

/-- The quotation marks that have a form of full width. -/
def isQuotationMark (n : Nat) : Bool := inRanges [(0x2018, 0x2019), (0x201C, 0x201D)] n

namespace Context

/-- Puts a selector before a text. Selectors leave a ligature whole, and one selector of pictures
leaves a sequence of emoji whole. -/
def select (k : Context) (s : Selector) : Context :=
  match k.following with
  | .alef | .ligature _ _ => { k with selectors := s :: k.selectors }
  | .emojiTail .joiner | .emojiTail .keycap =>
    if s = .picture ∧ k.selectors.isEmpty then { k with selectors := [s] } else ⟨[s], .plain⟩
  | _ => ⟨[s], .plain⟩

/-- The columns of a character whose style a selector behind it chooses. The selector of pictures
has to be the nearest one. -/
def selected? (k : Context) (n : Nat) : Option (Int × Following) :=
  if k.selectors.head? = some .picture ∧ isStyled n then
    some (if k.following.isEmojiTail then 0 else 2, .picture)
  else if .text ∈ k.selectors ∧ isTextPicture n then some (1, .plain)
  else if .fullWidth ∈ k.selectors ∧ isQuotationMark n then some (2, .plain)
  else none

/-- What follows a character on which the selectors have no effect. They part a sequence of emoji. -/
def unselected (k : Context) : Following :=
  if k.following.isEmojiTail && !k.selectors.isEmpty then .plain else k.following

/-- The columns that a character adds, and what a character before it is measured with. -/
def before (k : Context) (n : Nat) : Int × Context :=
  match k.selected? n, Selector.ofCode? n with
  | some (columns, f), _ => (columns, ⟨[], f⟩)
  | none, some s => (0, k.select s)
  | none, none =>
    let (columns, f) := k.unselected.before n
    (columns, ⟨[], f⟩)

end Context

/-- The columns of a text, and what a character before it is measured with. -/
def scan (cs : List Char) : Int × Context :=
  cs.foldr (fun c (columns, k) =>
    let (added, k) := k.before c.toNat
    (columns + added, k)) (0, {})

/-- The columns of a text. -/
def width (cs : List Char) : Nat := (scan cs).1.toNat

/-- The characters up to the blank that does not break, without the line feed. -/
def isBasic (c : Char) : Bool := c.toNat ≠ 0x0A && c.toNat ≤ 0xA0

theorem before_basic {c : Char} (h : isBasic c) : Context.before {} c.toNat = (1, {}) := by
  simp only [isBasic, Bool.and_eq_true, decide_eq_true_eq] at h
  have hs : Selector.ofCode? c.toNat = none := by
    unfold Selector.ofCode?
    repeat rw [if_neg (by omega)]
  simp [Context.before, Context.selected?, Context.unselected, hs, Following.before,
    Following.join?, alone, h]

theorem scan_of_basic {cs : List Char} (h : cs.all isBasic) : scan cs = ((cs.length : Int), {}) := by
  induction cs with
  | nil => rfl
  | cons c cs ih =>
    simp only [List.all_cons, Bool.and_eq_true] at h
    simp only [scan, List.foldr_cons] at ih ⊢
    rw [ih h.2]
    simp [before_basic h.1]

theorem width_of_basic {cs : List Char} (h : cs.all isBasic) : width cs = cs.length := by
  simp [width, scan_of_basic h]

end TileScript.Text
