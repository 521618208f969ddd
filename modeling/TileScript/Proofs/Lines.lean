import TileScript.Proofs.Pieces
import TileScript.Statement

/-! # Kinds of lines

What the kind of a line says of its text, and which texts are of a given kind.
-/

namespace TileScript

open Text

namespace Text

theorem afterPrefix?_eq_some {start cs rest : List Char} :
    afterPrefix? start cs = some rest ↔ cs = start ++ rest := by
  rw [afterPrefix?, List.isPrefixOf?_eq_some_iff_append_eq, eq_comm]

theorem afterPrefix?_eq_none {start cs : List Char} :
    afterPrefix? start cs = none ↔ ∀ rest, cs ≠ start ++ rest := by
  rw [Option.eq_none_iff_forall_ne_some]
  exact forall_congr' fun rest => not_congr afterPrefix?_eq_some

theorem of_splitOnce? {c : Char} {cs l r : List Char} (h : splitOnce? c cs = some (l, r)) :
    cs = l ++ c :: r ∧ c ∉ l := by
  fun_induction splitOnce? c cs generalizing l with
  | case1 => cases h
  | case2 ds =>
    cases h
    simp
  | case3 d ds hd ih =>
    obtain ⟨⟨l', r'⟩, h', he⟩ := Option.map_eq_some_iff.1 h
    cases he
    obtain ⟨rfl, hn⟩ := ih h'
    simp [hn, Ne.symm hd]

theorem splitOnce?_eq {c : Char} {l r : List Char} (h : c ∉ l) :
    splitOnce? c (l ++ c :: r) = some (l, r) := by
  induction l with
  | nil => simp [splitOnce?]
  | cons d l ih =>
    obtain ⟨hd, h⟩ : d ≠ c ∧ c ∉ l := by simpa [eq_comm] using h
    simp [splitOnce?, hd, ih h]

/-- At the end of a trimmed text trimming takes blanks from the left only. -/
theorem eq_takeWhile_append_trim {u cs : List Char} (h : trim (u ++ cs) = u ++ cs) :
    cs = cs.takeWhile isBlank ++ trim cs := by
  obtain ⟨t, ht, hcs⟩ := exists_trim cs
  cases hd : t.getLast? with
  | none =>
    obtain rfl := List.getLast?_eq_none_iff.1 hd
    simpa using hcs
  | some d =>
    have hb : isBlank d = true := List.all_eq_true.1 ht d (List.mem_of_getLast? hd)
    have hl : (trim (u ++ cs)).getLast? = some d := by
      rw [h, hcs, List.getLast?_append, List.getLast?_append, hd]
      rfl
    simp [isBlank_of_getLast?_trim hl] at hb

/-- A word that avoids a character does not reach up to it. -/
theorem prefix_append_iff {w b y : List Char} {c : Char} (hy : y.head? = some c) (hw : c ∉ w) :
    w <+: b ++ y ↔ w <+: b := by
  refine ⟨fun h => ?_, fun h => h.trans (List.prefix_append b y)⟩
  rcases List.prefix_or_prefix_of_prefix h (List.prefix_append b y) with h' | ⟨w', rfl⟩
  · exact h'
  · obtain ⟨y', rfl⟩ : ∃ y', y = c :: y' := List.head?_eq_some_iff.1 hy
    cases w' with
    | nil => simp
    | cons d w' =>
      have h' : d :: w' <+: c :: y' := (List.prefix_append_right_inj b).1 h
      obtain rfl := (List.cons_prefix_cons.1 h').1
      simp at hw

end Text

namespace Chain

/-- Whether a character makes an equals sign behind it part of a comparison. -/
def isComparing (c : Char) : Bool := c == '=' || c == '!' || c == '<' || c == '>'

/-- Whether an assignment is cut at a character, given its neighbours. -/
def cutsAssignment (n : Nesting) (before : Option Char) (c : Char) (next : Option Char) : Bool :=
  n.isTop c && c == '=' && !(before.any isComparing || next == some '=')

theorem cutAssignment?_cons (n : Nesting) (before : Option Char) (c : Char) (cs : List Char) :
    cutAssignment? n before (c :: cs) =
      if cutsAssignment n before c cs.head? then some ([], cs)
      else (cutAssignment? (n.step c) (some c) cs).map fun (l, r) => (c :: l, r) := rfl

theorem of_cutsAssignment {n : Nesting} {before : Option Char} {c : Char} {next : Option Char}
    (h : cutsAssignment n before c next = true) : c = '=' ∧ next ≠ some '=' := by
  simp only [cutsAssignment, Bool.and_eq_true, Bool.not_eq_true', Bool.or_eq_false_iff,
    beq_iff_eq, beq_eq_false_iff_ne] at h
  exact ⟨h.1.2, h.2.2⟩

/-- The sign at which an assignment is cut is not doubled. -/
theorem head?_of_cutAssignment? {n : Nesting} {before : Option Char} {cs l r : List Char}
    (h : cutAssignment? n before cs = some (l, r)) : r.head? ≠ some '=' := by
  induction cs generalizing n before l with
  | nil => cases h
  | cons c cs ih =>
    rw [cutAssignment?_cons] at h
    split at h
    · next hc =>
      cases h
      exact (of_cutsAssignment hc).2
    · obtain ⟨⟨l', r'⟩, h', he⟩ := Option.map_eq_some_iff.1 h
      cases he
      exact ih h'

/-- Behind the sign at which an assignment is cut the text does not matter. -/
theorem cutAssignment?_replace {n : Nesting} {before : Option Char} {l r r' : List Char}
    (h : cutAssignment? n before (l ++ '=' :: r) = some (l, r)) (hr : r'.head? ≠ some '=') :
    cutAssignment? n before (l ++ '=' :: r') = some (l, r') := by
  induction l generalizing n before with
  | nil =>
    rw [List.nil_append, cutAssignment?_cons] at h ⊢
    split at h
    · next hc =>
      have hc' : cutsAssignment n before '=' r'.head? = true := by simp_all [cutsAssignment]
      rw [if_pos hc']
    · simp at h
  | cons c l ih =>
    have hh : (l ++ '=' :: r').head? = (l ++ '=' :: r).head? := by cases l <;> rfl
    rw [List.cons_append, cutAssignment?_cons] at h ⊢
    rw [hh]
    split at h
    · simp at h
    · next hc =>
      rw [if_neg hc]
      obtain ⟨⟨l', y⟩, hl, he⟩ := Option.map_eq_some_iff.1 h
      obtain ⟨rfl, rfl⟩ : l' = l ∧ y = r := by simpa using he
      rw [ih hl]
      rfl

theorem of_cutAssignment? {n : Nesting} {before : Option Char} {cs l r : List Char}
    (h : cutAssignment? n before cs = some (l, r)) : cs = l ++ '=' :: r := by
  induction cs generalizing n before l with
  | nil => cases h
  | cons c cs ih =>
    rw [cutAssignment?_cons] at h
    split at h
    · next hc =>
      cases h
      rw [(of_cutsAssignment hc).1, List.nil_append]
    · obtain ⟨⟨l', r'⟩, h', he⟩ := Option.map_eq_some_iff.1 h
      cases he
      rw [ih h']
      rfl

end Chain

namespace Statement

/-- Whether a text names a variable that a script can define. -/
def isDefinable (name : List Char) : Bool := Chain.isIdentifier name && !isReserved name

theorem of_splitDefinition {d name value : List Char} (h : splitDefinition d = .ok (name, value)) :
    ∃ left, d = left ++ '=' :: value ∧ '=' ∉ left ∧ isDefinable (trim left) = true := by
  unfold splitDefinition at h
  split at h
  · cases h
  · next left value' hs =>
    obtain ⟨rfl, hn⟩ := of_splitOnce? hs
    dsimp only at h
    split at h
    · next hd =>
      cases h
      exact ⟨left, rfl, hn, hd⟩
    · cases h

theorem splitDefinition_eq {left value : List Char} (hn : '=' ∉ left)
    (hd : isDefinable (trim left) = true) :
    splitDefinition (left ++ '=' :: value) = .ok (trim left, value) := by
  rw [splitDefinition, splitOnce?_eq hn]
  exact if_pos hd

theorem isComment_iff {t : List Char} :
    isComment t = true ↔ "//".toList <+: t ∨ "#".toList <+: t ∨ "$".toList <+: t := by
  simp only [isComment, Bool.or_eq_true, List.isPrefixOf_iff_prefix, or_assoc]

/-- A trimmed line without a keyword: an assignment or a chain. -/
structure Ordinary (t : List Char) : Prop where
  ne_nil : t ≠ []
  not_comment : isComment t = false
  not_close : t ≠ "end".toList
  not_otherwise : t ≠ "else".toList
  not_declare : ∀ d, t ≠ "var ".toList ++ d
  not_if : t ≠ "if".toList
  not_branch : ∀ d, t ≠ "if ".toList ++ d

theorem ofLine_ordinary {line : List Char} (h : Ordinary (trim line)) :
    ofLine line = match Chain.splitAssignment? (trim line) with
      | some (name, value) => .assign name value
      | none => .bare (trim line) := by
  have hc : condition? (trim line) = none := by
    rw [condition?, if_neg h.not_if]
    exact afterPrefix?_eq_none.2 h.not_branch
  rcases hs : Chain.splitAssignment? (trim line) with _ | ⟨name, value⟩ <;>
    simp only [ofLine, h.not_comment, Bool.or_false, List.isEmpty_iff, h.ne_nil, h.not_close,
      h.not_otherwise, if_false, afterPrefix?_eq_none.2 h.not_declare, hc, hs]

theorem ofLine_comment {line : List Char} (h : isComment (trim line) = true) :
    ofLine line = .blank := by
  simp only [ofLine, h, Bool.or_true, if_true]

theorem ofLine_declare {line d : List Char} (h : trim line = "var ".toList ++ d) :
    ofLine line = .declare d := by
  have hd : afterPrefix? "var ".toList (trim line) = some d := afterPrefix?_eq_some.2 h
  simp only [ofLine, hd]
  simp [h, isComment, List.isPrefixOf]

theorem ofLine_branch {line d : List Char} (h : trim line = "if ".toList ++ d) :
    ofLine line = .branch (trim d) := by
  have hd : afterPrefix? "var ".toList (trim line) = none := by
    rw [afterPrefix?_eq_none, h]
    simp
  have hc : condition? (trim line) = some d := by
    rw [condition?, if_neg (by simp [h])]
    exact afterPrefix?_eq_some.2 h
  simp only [ofLine, hd, hc]
  simp [h, isComment, List.isPrefixOf]

/-- Behind a sign that no keyword has, the text of a line without a keyword does not matter. -/
theorem Ordinary.replace {x y : List Char} {c : Char} (hc : c = '=' ∨ c = '(')
    (h : Ordinary (x ++ c :: y)) (y' : List Char) : Ordinary (x ++ c :: y') := by
  have hword {w : List Char} (hw : '=' ∉ w ∧ '(' ∉ w) : w <+: x ++ c :: y' ↔ w <+: x ++ c :: y := by
    have hcw : c ∉ w := by
      rcases hc with rfl | rfl
      · exact hw.1
      · exact hw.2
    rw [prefix_append_iff rfl hcw, prefix_append_iff rfl hcw]
  have hne {w : List Char} (hw : '=' ∉ w ∧ '(' ∉ w) : x ++ c :: y' ≠ w := by
    rintro rfl
    rcases hc with rfl | rfl
    · exact hw.1 (by simp)
    · exact hw.2 (by simp)
  exact {
    ne_nil := by simp
    not_comment := by
      have hn := h.not_comment
      rw [← Bool.not_eq_true, isComment_iff] at hn ⊢
      rwa [hword (by decide), hword (by decide), hword (by decide)]
    not_close := hne (by decide)
    not_otherwise := hne (by decide)
    not_declare := fun d hd => by
      obtain ⟨d', hd'⟩ := (hword (w := "var ".toList) (by decide)).1 ⟨d, hd.symm⟩
      exact h.not_declare d' hd'.symm
    not_if := hne (by decide)
    not_branch := fun d hd => by
      obtain ⟨d', hd'⟩ := (hword (w := "if ".toList) (by decide)).1 ⟨d, hd.symm⟩
      exact h.not_branch d' hd'.symm }

section Padded

variable {l left m value t : List Char} (hl : l.all isBlank) (ht : t.all isBlank)
include hl ht

theorem ofLine_padded_declare
    (h : trim ("var ".toList ++ left ++ ['='] ++ value) = "var ".toList ++ left ++ ['='] ++ value) :
    ofLine (l ++ "var ".toList ++ left ++ ['='] ++ value ++ t) =
      .declare (left ++ ['='] ++ value) := by
  apply ofLine_declare
  simpa using trim_pad hl ht h

theorem ofLine_padded_assign
    (h : trim (left ++ ['='] ++ m ++ value) = left ++ ['='] ++ m ++ value)
    (ho : Ordinary (left ++ ['='] ++ m ++ value))
    (hc : Chain.cutAssignment? {} none (left ++ ['='] ++ m ++ value) = some (left, m ++ value)) :
    ofLine (l ++ left ++ ['='] ++ m ++ value ++ t) = .assign (trim left) (trim (m ++ value)) := by
  have htrim : trim (l ++ left ++ ['='] ++ m ++ value ++ t) = left ++ ['='] ++ m ++ value := by
    simpa using trim_pad hl ht h
  rw [ofLine_ordinary (by rwa [htrim]), htrim, Chain.splitAssignment?, hc]
  rfl

theorem ofLine_padded_bare {chain : List Char} (h : trim chain = chain) (ho : Ordinary chain)
    (hc : Chain.splitAssignment? chain = none) : ofLine (l ++ chain ++ t) = .bare chain := by
  have htrim : trim (l ++ chain ++ t) = chain := trim_pad hl ht h
  rw [ofLine_ordinary (by rwa [htrim]), htrim, hc]

theorem ofLine_padded_branch {condition : List Char}
    (h : trim ("if ".toList ++ m ++ condition) = "if ".toList ++ m ++ condition) :
    ofLine (l ++ "if ".toList ++ m ++ condition ++ t) = .branch (trim (m ++ condition)) := by
  apply ofLine_branch
  simpa using trim_pad hl ht h

end Padded

/-- The statements that a trimmed line can be read as. -/
inductive Shape (t : List Char) : Statement → Prop where

  | blank : Shape t .blank

  | close : Shape t .close

  | otherwise : Shape t .otherwise

  | declare {d : List Char} : t = "var ".toList ++ d → Shape t (.declare d)

  | emptyBranch : t = "if".toList → Shape t (.branch [])

  | branch {d : List Char} : t = "if ".toList ++ d → Shape t (.branch (trim d))

  | assign {l r : List Char} : Ordinary t → Chain.cutAssignment? {} none t = some (l, r) →
      Shape t (.assign (trim l) (trim r))

  | bare : Ordinary t → Chain.splitAssignment? t = none → Shape t (.bare t)

theorem ofLine_shape (line : List Char) : Shape (trim line) (ofLine line) := by
  by_cases ho : Ordinary (trim line)
  · rw [ofLine_ordinary ho]
    unfold Chain.splitAssignment?
    cases hc : Chain.cutAssignment? {} none (trim line) with
    | none => exact .bare ho (by rw [Chain.splitAssignment?, hc]; rfl)
    | some x => exact .assign ho hc
  · unfold ofLine
    dsimp only
    split
    · exact .blank
    · next h₁ =>
      split
      · exact .close
      · next h₂ =>
        split
        · exact .otherwise
        · next h₃ =>
          split
          · next d hd => exact .declare (afterPrefix?_eq_some.1 hd)
          · next hv =>
            unfold condition?
            split
            · next c hc =>
              split at hc
              · next hi =>
                cases hc
                exact .emptyBranch hi
              · exact .branch (afterPrefix?_eq_some.1 hc)
            · next hc =>
              split at hc
              · cases hc
              · next hi =>
                simp only [Bool.or_eq_true, List.isEmpty_iff, not_or, Bool.not_eq_true] at h₁
                exact absurd ⟨h₁.1, h₁.2, h₂, h₃, afterPrefix?_eq_none.1 hv, hi,
                  afterPrefix?_eq_none.1 hc⟩ ho

end Statement

end TileScript
