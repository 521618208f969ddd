import TileScript.Json.Reader
import TileScript.Json.Writer
import TileScript.Proofs.Literal

/-! # Reading JSON as it is written

A document whose numbers are integers is read from its text, on one line or over several lines, as
the tree that was written. Each reader takes from the text of its part just that part, so what
stands behind it is left for the next reader.
-/

namespace TileScript.Json

/-- Trees that keep all they hold when they are written. -/
inductive Plain : Json → Prop where

  | null : Plain .null

  | bool {b : Bool} : Plain (.bool b)

  | number {negative : Bool} {digits : Nat} : Plain (.number { negative, digits })

  | string {s : String} : Plain (.string s)

  | array {vs : List Json} : (∀ v ∈ vs, Plain v) → Plain (.array vs)

  | object {ms : List (String × Json)} : (∀ m ∈ ms, Plain m.2) → Plain (.object ms)

section Strings

theorem hexValue?_hexDigit {n : Nat} (h : n < 16) : hexValue? (hexDigit n) = some n := by
  revert n
  decide

/-- What the reader of a string makes of a code unit behind which the string goes on. -/
def unitBefore (unit : Nat) (read : Option (List Nat × List Char)) :
    Option (List Nat × List Char) :=
  read.bind fun x => some (unit :: x.1, x.2)

theorem readUnits_unescape {e c : Char} (h : unescape? e = some c) (cs : List Char) :
    readUnits ('\\' :: e :: cs) = unitBefore c.toNat (readUnits cs) := by
  -- a letter that is known tells the reader its case, so each case is computed
  unfold unescape? at h
  split at h
  · next he =>
    cases h
    rcases he with rfl | rfl | rfl <;> rfl
  iterate 5
    split at h
    · next he =>
      cases h
      rw [he]
      rfl
  cases h

theorem readUnits_hex {a b : Nat} (ha : a < 16) (hb : b < 16) (cs : List Char) :
    readUnits ('\\' :: 'u' :: '0' :: '0' :: hexDigit a :: hexDigit b :: cs) =
      unitBefore (a * 16 + b) (readUnits cs) := by
  have hzero : hexValue? '0' = some 0 := rfl
  simp [readUnits_numeric, hexValue?_hexDigit ha, hexValue?_hexDigit hb, hzero, unitBefore]

theorem readUnits_plain {c : Char} (hq : c ≠ '"') (hb : c ≠ '\\') (hc : ¬ c.toNat < 0x20)
    (cs : List Char) : readUnits (c :: cs) = unitBefore c.toNat (readUnits cs) := by
  rw [readUnits]
  · simp [hb, hc, unitBefore]
  · simpa using hq
  · simp [hb]
  · simp [hb]

/-- A character is written with a letter that stands for it, as a number, or as it is. -/
theorem escape_cases (c : Char) :
    (∃ e, escape c = ['\\', e] ∧ unescape? e = some c) ∨
    (c.toNat < 0x20 ∧
      escape c = ['\\', 'u', '0', '0', hexDigit (c.toNat / 16), hexDigit (c.toNat % 16)]) ∨
    (c ≠ '"' ∧ c ≠ '\\' ∧ ¬ c.toNat < 0x20 ∧ escape c = [c]) := by
  by_cases h : c ∈ ['"', '\\', '\n', '\r', '\t', '\x08', '\x0c']
  · simp only [List.mem_cons, List.not_mem_nil, or_false] at h
    left
    rcases h with rfl | rfl | rfl | rfl | rfl | rfl | rfl <;> exact ⟨_, rfl, rfl⟩
  · simp only [List.mem_cons, List.not_mem_nil, or_false, not_or] at h
    obtain ⟨h₁, h₂, h₃, h₄, h₅, h₆, h₇⟩ := h
    right
    rw [escape, if_neg h₁, if_neg h₂, if_neg h₃, if_neg h₄, if_neg h₅, if_neg h₆, if_neg h₇]
    by_cases hlt : c.toNat < 0x20
    · exact .inl ⟨hlt, if_pos hlt⟩
    · exact .inr ⟨h₁, h₂, hlt, if_neg hlt⟩

theorem readUnits_escape (c : Char) (cs : List Char) :
    readUnits (escape c ++ cs) = unitBefore c.toNat (readUnits cs) := by
  rcases escape_cases c with ⟨e, he, hc⟩ | ⟨hlt, he⟩ | ⟨hq, hb, hc, he⟩
  · rw [he]
    exact readUnits_unescape hc cs
  · have hsplit : c.toNat / 16 * 16 + c.toNat % 16 = c.toNat := Nat.div_add_mod' ..
    have hread := readUnits_hex (show c.toNat / 16 < 16 by omega)
      (show c.toNat % 16 < 16 by omega) cs
    rw [hsplit] at hread
    rw [he]
    exact hread
  · rw [he]
    exact readUnits_plain hq hb hc cs

theorem readUnits_flatMap_escape (cs rest : List Char) :
    readUnits (cs.flatMap escape ++ '"' :: rest) = some (cs.map Char.toNat, rest) := by
  induction cs with
  | nil => rfl
  | cons c cs ih => rw [List.flatMap_cons, List.append_assoc, readUnits_escape, ih]; rfl

/-- Characters are no halves of pairs. -/
theorem not_isSurrogate (c : Char) :
    isHighSurrogate c.toNat = false ∧ isLowSurrogate c.toNat = false := by
  have h : c.toNat < 0xD800 ∨ 0xDFFF < c.toNat ∧ c.toNat < 0x110000 := c.valid
  simp only [isHighSurrogate, isLowSurrogate, Bool.and_eq_false_iff, decide_eq_false_iff_not]
  omega

theorem assemble?_map_toNat (cs : List Char) : assemble? (cs.map Char.toNat) = some cs := by
  induction cs with
  | nil => rfl
  | cons c cs ih =>
    obtain ⟨hhigh, hlow⟩ := not_isSurrogate c
    cases cs with
    | nil => simp [assemble?, hhigh, hlow]
    | cons d cs =>
      rw [List.map_cons, List.map_cons] at *
      simp [assemble?, hhigh, hlow, ih]

theorem readText_escaped (s : String) (rest : List Char) :
    readText (s.toList.flatMap escape ++ '"' :: rest) = some (some s, rest) := by
  simp [readText, readUnits_flatMap_escape, assemble?_map_toNat]

end Strings

section Numbers

/-- What stands behind a value: nothing that could belong to a number. -/
def EndsNumber (rest : List Char) : Prop :=
  ∀ c, rest.head? = some c → c.isDigit = false ∧ c ≠ '.' ∧ c ≠ 'e' ∧ c ≠ 'E'

variable {rest : List Char}

theorem takeWhile_isDigit_toDigits (n : Nat) (h : EndsNumber rest) :
    (Nat.toDigits 10 n ++ rest).takeWhile Char.isDigit = Nat.toDigits 10 n ∧
      (Nat.toDigits 10 n ++ rest).dropWhile Char.isDigit = rest := by
  have hd : ∀ c ∈ Nat.toDigits 10 n, c.isDigit = true := fun c hc =>
    Nat.isDigit_of_mem_toDigits (by decide) (by decide) hc
  rw [List.takeWhile_append_of_pos hd, List.dropWhile_append_of_pos hd]
  cases rest with
  | nil => simp
  | cons c rest => simp [(h c rfl).1]

/-- Only zero begins with the digit zero. -/
theorem eq_zero_of_head?_toDigits {n : Nat} (h : (Nat.toDigits 10 n).head? = some '0') : n = 0 := by
  induction n using Nat.strong_induction_on with
  | h n ih =>
    rw [Nat.toDigits_eq_if (by decide)] at h
    split at h
    · next hn =>
      have hdigits : ∀ n < 10, [Nat.digitChar n].head? = some '0' → n = 0 := by decide
      exact hdigits n hn h
    · next hn =>
      rw [List.head?_append_of_ne_nil _ Nat.toDigits_ne_nil] at h
      have hz := ih (n / 10) (by omega) h
      omega

theorem readWhole_toDigits (n : Nat) (h : EndsNumber rest) :
    readWhole (Nat.toDigits 10 n ++ rest) = some (Nat.toDigits 10 n, rest) := by
  rcases Nat.eq_zero_or_pos n with rfl | hn
  · rfl
  · obtain ⟨htake, hdrop⟩ := takeWhile_isDigit_toDigits n h
    unfold readWhole
    split
    · next rest' heq =>
      have hhead : (Nat.toDigits 10 n ++ rest).head? = some '0' := by rw [heq]; rfl
      rw [List.head?_append_of_ne_nil _ Nat.toDigits_ne_nil] at hhead
      exact absurd (eq_zero_of_head?_toDigits hhead) (by omega)
    · rw [readDigitRun, htake, hdrop]
      split
      · next hnil => exact absurd hnil Nat.toDigits_ne_nil
      · rfl

theorem readUnsigned_toDigits (negative : Bool) (n : Nat) (h : EndsNumber rest) :
    readUnsigned negative (Nat.toDigits 10 n ++ rest) =
      some (.number { negative, digits := n }, rest) := by
  have hfraction : readFraction rest = some (none, rest) := by
    unfold readFraction
    split
    · exact absurd rfl (h '.' rfl).2.1
    · rfl
  have hexponent : readExponent rest = some (none, rest) := by
    unfold readExponent
    split
    · next c rest =>
      rw [if_neg]
      simpa using (h c rfl).2.2
    · rfl
  simp [readUnsigned, readWhole_toDigits n h, hfraction, hexponent, Nat.ofDigitChars_ten_toDigits]

theorem readNumber_render (negative : Bool) (n : Nat) (h : EndsNumber rest) :
    readNumber (Number.render { negative, digits := n } ++ rest) =
      some (.number { negative, digits := n }, rest) := by
  have hread := readUnsigned_toDigits negative n h
  cases negative with
  | true => simpa [Number.render, readNumber] using hread
  | false =>
    have hr : Number.render { digits := n } = Nat.toDigits 10 n := by simp [Number.render]
    obtain ⟨c, hc, hd⟩ := Value.head?_toDigits n
    obtain ⟨ds, hds⟩ := List.head?_eq_some_iff.1 hc
    rw [hr, ← hread, hds]
    unfold readNumber
    split
    · next rest' heq =>
      obtain ⟨rfl, -⟩ := List.cons.inj heq
      cases hd
    · rfl

end Numbers

section Spaces

variable {fuel : Nat} {level : Option Nat} {c : Char} {sp cs rest : List Char}

theorem isSpace_of_mem_lineBreak (h : c ∈ lineBreak level) : isSpace c = true := by
  cases level with
  | none => cases h
  | some level =>
    rcases List.mem_cons.1 h with rfl | h
    · rfl
    · obtain rfl := List.eq_of_mem_replicate h
      rfl

theorem exists_colon (level : Option Nat) :
    ∃ sp, colon level = ':' :: sp ∧ ∀ c ∈ sp, isSpace c = true := by
  cases level with
  | none => exact ⟨[], rfl, by simp⟩
  | some level => exact ⟨[' '], rfl, by simp [isSpace]⟩

theorem endsNumber_lineBreak (h : EndsNumber rest) : EndsNumber (lineBreak level ++ rest) := by
  cases level with
  | none => exact h
  | some level =>
    intro c hc
    obtain rfl := Option.some.inj hc
    decide

theorem endsNumber_cons (h : c = ',' ∨ c = ']' ∨ c = '\x7d') : EndsNumber (c :: rest) := by
  intro d hd
  obtain rfl := Option.some.inj hd
  rcases h with rfl | rfl | rfl <;> decide

theorem skipSpace_append (h : ∀ c ∈ sp, isSpace c = true) (cs : List Char) :
    skipSpace (sp ++ cs) = skipSpace cs :=
  List.dropWhile_append_of_pos h

theorem skipSpace_cons (h : isSpace c = false) (cs : List Char) :
    skipSpace (c :: cs) = c :: cs := by
  simp [skipSpace, h]

theorem skipSpace_skipSpace (cs : List Char) : skipSpace (skipSpace cs) = skipSpace cs :=
  List.dropWhile_idempotent ..

theorem readValue_space (h : isSpace c = true) (cs : List Char) :
    readValue fuel (c :: cs) = readValue fuel cs := by
  cases fuel with
  | zero => rfl
  | succ fuel =>
    simp only [isSpace, Bool.or_eq_true, beq_iff_eq] at h
    rcases h with ((rfl | rfl) | rfl) | rfl <;> rfl

theorem readValue_skipSpace : readValue fuel (skipSpace cs) = readValue fuel cs := by
  induction cs with
  | nil => rfl
  | cons c cs ih =>
    rw [skipSpace, List.dropWhile_cons]
    split
    · next h => rw [readValue_space h, ← ih, skipSpace]
    · rfl

theorem readItems_skipSpace : readItems fuel (skipSpace cs) = readItems fuel cs := by
  cases fuel with
  | zero => rfl
  | succ fuel => rw [readItems, readItems, readValue_skipSpace]

theorem readMembers_skipSpace : readMembers fuel (skipSpace cs) = readMembers fuel cs := by
  cases fuel with
  | zero => rfl
  | succ fuel => rw [readMembers, readMembers, skipSpace_skipSpace]

theorem readValue_append (h : ∀ c ∈ sp, isSpace c = true) (cs : List Char) :
    readValue fuel (sp ++ cs) = readValue fuel cs := by
  rw [← readValue_skipSpace, skipSpace_append h, readValue_skipSpace]

end Spaces

section Values

variable {fuel : Nat} {level outer : Option Nat} {rest : List Char}

theorem readValue_number {c : Char} (h : c = '-' ∨ c.isDigit = true) (cs : List Char) :
    readValue (fuel + 1) (c :: cs) = readNumber (c :: cs) := by
  have hspace : isSpace c = false := by
    rw [← Bool.not_eq_true]
    intro hs
    simp only [isSpace, Bool.or_eq_true, beq_iff_eq] at hs
    rcases hs with ((rfl | rfl) | rfl) | rfl <;> simp at h
  rw [readValue, skipSpace_cons hspace]
  split
  case h_7 => rfl
  all_goals
    next heq =>
      obtain ⟨rfl, -⟩ := List.cons.inj heq
      simp at h

theorem exists_render_number (negative : Bool) (n : Nat) :
    ∃ c cs, Number.render { negative, digits := n } = c :: cs ∧ (c = '-' ∨ c.isDigit = true) := by
  cases negative with
  | true => exact ⟨'-', Nat.toDigits 10 n, by simp [Number.render], .inl rfl⟩
  | false =>
    obtain ⟨c, hc, hd⟩ := Value.head?_toDigits n
    obtain ⟨ds, hds⟩ := List.head?_eq_some_iff.1 hc
    exact ⟨c, ds, by simp [Number.render, hds], .inr hd⟩

theorem render_ne_nil (level : Option Nat) (j : Json) : render level j ≠ [] := by
  cases j with
  | null | garbled => simp
  | bool b => cases b <;> simp
  | number n => simp [Number.render]
  | string s => simp [quote]
  | array vs => cases vs <;> simp
  | object ms => cases ms <;> simp

/-- The reader takes the text of a tree, at any level, for this tree. Twice the length of the text
is fuel enough. -/
def ReadsBack (j : Json) : Prop :=
  ∀ (level : Option Nat) (fuel : Nat) (rest : List Char), EndsNumber rest →
    2 * (render level j).length ≤ fuel → readValue fuel (render level j ++ rest) = some (j, rest)

/-- No tree has an empty text, so there is fuel for the first step. -/
theorem ReadsBack.of_succ {j : Json}
    (h : ∀ (level : Option Nat) (fuel : Nat) (rest : List Char), EndsNumber rest →
      2 * (render level j).length ≤ fuel + 1 →
      readValue (fuel + 1) (render level j ++ rest) = some (j, rest)) : ReadsBack j := by
  intro level fuel rest hrest hf
  have hpos := List.length_pos_iff.2 (render_ne_nil level j)
  obtain ⟨fuel, rfl⟩ := Nat.exists_eq_add_one.2 (show 0 < fuel by omega)
  exact h level fuel rest hrest hf

theorem readsBack_number (negative : Bool) (n : Nat) :
    ReadsBack (.number { negative, digits := n }) := by
  refine .of_succ fun level fuel rest hrest _ => ?_
  obtain ⟨c, cs, hc, hd⟩ := exists_render_number negative n
  have hread := readNumber_render negative n hrest
  rw [hc] at hread
  rw [render_number, hc, List.cons_append, readValue_number hd, ← List.cons_append, hread]

theorem readsBack_string (s : String) : ReadsBack (.string s) := by
  refine .of_succ fun level fuel rest _ _ => ?_
  rw [render_string, quote, List.append_assoc, List.cons_append, readValue_quote]
  simp [readText_escaped]

section Items

variable {v : Json} {cs behind : List Char}

theorem readItems_last (hv : readValue fuel cs = some (v, behind))
    (hb : skipSpace behind = ']' :: rest) :
    readItems (fuel + 1) (lineBreak outer ++ cs) = some ([v], rest) := by
  rw [readItems, readValue_append fun _ => isSpace_of_mem_lineBreak, hv]
  simp only [Option.bind_eq_bind, Option.bind_some, hb]
  rfl

theorem readItems_more {more : List Char} {vs : List Json}
    (hv : readValue fuel cs = some (v, behind)) (hb : skipSpace behind = ',' :: more)
    (hvs : readItems fuel more = some (vs, rest)) :
    readItems (fuel + 1) (lineBreak outer ++ cs) = some (v :: vs, rest) := by
  rw [readItems, readValue_append fun _ => isSpace_of_mem_lineBreak, hv]
  simp only [Option.bind_eq_bind, Option.bind_some, hb, hvs]
  rfl

theorem readItems_render {vs : List Json} (hne : vs ≠ []) (h : ∀ v ∈ vs, ReadsBack v)
    (hf : 2 * (renderItems level vs).length + 1 ≤ fuel) :
    readItems fuel (renderItems level vs ++ (lineBreak outer ++ ']' :: rest)) =
      some (vs, rest) := by
  induction vs generalizing fuel with
  | nil => exact absurd rfl hne
  | cons v vs ih =>
    obtain ⟨fuel, rfl⟩ := Nat.exists_eq_add_one.2 (show 0 < fuel by omega)
    have hv : ReadsBack v := h v (by simp)
    cases vs with
    | nil =>
      rw [renderItems_singleton] at hf ⊢
      simp only [List.length_append] at hf
      rw [List.append_assoc]
      refine readItems_last
        (hv level fuel _ (endsNumber_lineBreak (endsNumber_cons (by simp))) (by omega)) ?_
      rw [skipSpace_append fun _ => isSpace_of_mem_lineBreak, skipSpace_cons rfl]
    | cons w vs =>
      rw [renderItems_cons_cons] at hf ⊢
      simp only [List.length_append, List.length_cons] at hf
      have htail := @ih fuel (by simp) (fun u hu => h u (by simp [hu])) (by omega)
      simp only [List.append_assoc, List.cons_append]
      exact readItems_more (hv level fuel _ (endsNumber_cons (by simp)) (by omega))
        (skipSpace_cons rfl _) htail

end Items

section Members

variable {name : String} {v : Json} {cs behind : List Char}

/-- Behind the name of a member comes its value, and then there are more members or the brace. -/
theorem readMembers_named :
    readMembers (fuel + 1) (lineBreak outer ++ (quote name ++ (colon level ++ cs))) =
      (readValue fuel cs).bind fun (v, behind) =>
        match skipSpace behind with
        | ',' :: more =>
          (readMembers fuel more).bind fun (ms, rest) => some ((some name, v) :: ms, rest)
        | '\x7d' :: rest => some ([(some name, v)], rest)
        | _ => none := by
  obtain ⟨sp, hcolon, hsp⟩ := exists_colon level
  have hc : isSpace ':' = false := rfl
  rw [readMembers, skipSpace_append fun _ => isSpace_of_mem_lineBreak, quote, List.append_assoc,
    List.cons_append, skipSpace_cons rfl]
  simp only [List.cons_append, List.nil_append, readText_escaped, hcolon, Option.bind_eq_bind,
    Option.bind_some, skipSpace_cons hc, readValue_append hsp]
  rfl

theorem readMembers_last (hv : readValue fuel cs = some (v, behind))
    (hb : skipSpace behind = '\x7d' :: rest) :
    readMembers (fuel + 1) (lineBreak outer ++ (quote name ++ (colon level ++ cs))) =
      some ([(some name, v)], rest) := by
  rw [readMembers_named, hv]
  simp only [Option.bind_some, hb]

theorem readMembers_more {more : List Char} {ms : List (Option String × Json)}
    (hv : readValue fuel cs = some (v, behind)) (hb : skipSpace behind = ',' :: more)
    (hms : readMembers fuel more = some (ms, rest)) :
    readMembers (fuel + 1) (lineBreak outer ++ (quote name ++ (colon level ++ cs))) =
      some ((some name, v) :: ms, rest) := by
  rw [readMembers_named, hv]
  simp only [Option.bind_some, hb, hms]

theorem readMembers_render {ms : List (String × Json)} (hne : ms ≠ [])
    (h : ∀ m ∈ ms, ReadsBack m.2) (hf : 2 * (renderMembers level ms).length + 1 ≤ fuel) :
    readMembers fuel (renderMembers level ms ++ (lineBreak outer ++ '\x7d' :: rest)) =
      some (ms.map fun m => (some m.1, m.2), rest) := by
  induction ms generalizing fuel with
  | nil => exact absurd rfl hne
  | cons m ms ih =>
    obtain ⟨fuel, rfl⟩ := Nat.exists_eq_add_one.2 (show 0 < fuel by omega)
    obtain ⟨name, v⟩ := m
    have hv : ReadsBack v := h (name, v) (by simp)
    cases ms with
    | nil =>
      rw [renderMembers_singleton] at hf ⊢
      simp only [List.length_append] at hf
      simp only [List.append_assoc]
      refine readMembers_last
        (hv level fuel _ (endsNumber_lineBreak (endsNumber_cons (by simp))) (by omega)) ?_
      rw [skipSpace_append fun _ => isSpace_of_mem_lineBreak, skipSpace_cons rfl]
    | cons m ms =>
      rw [renderMembers_cons_cons] at hf ⊢
      simp only [List.length_append, List.length_cons] at hf
      have htail := @ih fuel (by simp) (fun u hu => h u (by simp [hu])) (by omega)
      simp only [List.append_assoc, List.cons_append]
      exact readMembers_more (hv level fuel _ (endsNumber_cons (by simp)) (by omega))
        (skipSpace_cons rfl _) htail

end Members

theorem ofMembers_some (ms : List (String × Json)) :
    ofMembers (ms.map fun m => (some m.1, m.2)) = .object ms := by
  have hnames : (ms.map fun m => (some m.1, m.2)).mapM
      (fun (x : Option String × Json) => x.1.map (·, x.2)) = some ms := by
    induction ms with
    | nil => rfl
    | cons m ms ih => simp [ih]
  unfold ofMembers
  rw [hnames]

theorem readItems_bracket (cs : List Char) : readItems fuel (']' :: cs) = none := by
  match fuel with
  | 0 => rfl
  | 1 => rfl
  | fuel + 2 => rfl

theorem readMembers_brace (cs : List Char) : readMembers fuel ('\x7d' :: cs) = none := by
  match fuel with
  | 0 => rfl
  | fuel + 1 => rfl

theorem readValue_array {cs : List Char} {vs : List Json}
    (h : readItems fuel cs = some (vs, rest)) :
    readValue (fuel + 1) ('[' :: cs) = some (.array vs, rest) := by
  rw [← readItems_skipSpace] at h
  rw [readValue_bracket]
  split
  · next hs =>
    rw [hs, readItems_bracket] at h
    cases h
  · rw [h]
    rfl

theorem readValue_object {cs : List Char} {ms : List (String × Json)}
    (h : readMembers fuel cs = some (ms.map fun m => (some m.1, m.2), rest)) :
    readValue (fuel + 1) ('\x7b' :: cs) = some (.object ms, rest) := by
  rw [← readMembers_skipSpace] at h
  rw [readValue_brace]
  split
  · next hs =>
    rw [hs, readMembers_brace] at h
    cases h
  · simp only [h, Option.map_some, ofMembers_some]

theorem readsBack_array {vs : List Json} (h : ∀ v ∈ vs, ReadsBack v) : ReadsBack (.array vs) := by
  refine .of_succ fun level fuel rest _ hf => ?_
  cases vs with
  | nil => rfl
  | cons v vs =>
    rw [render_array_cons] at hf ⊢
    simp only [List.length_append, List.length_cons] at hf
    simp only [List.append_assoc, List.cons_append, List.nil_append]
    exact readValue_array (readItems_render (List.cons_ne_nil v vs) h (by omega))

theorem readsBack_object {ms : List (String × Json)} (h : ∀ m ∈ ms, ReadsBack m.2) :
    ReadsBack (.object ms) := by
  refine .of_succ fun level fuel rest _ hf => ?_
  cases ms with
  | nil => rfl
  | cons m ms =>
    rw [render_object_cons] at hf ⊢
    simp only [List.length_append, List.length_cons] at hf
    simp only [List.append_assoc, List.cons_append, List.nil_append]
    exact readValue_object (readMembers_render (List.cons_ne_nil m ms) h (by omega))

theorem Plain.readsBack {j : Json} (h : Plain j) : ReadsBack j := by
  induction h with
  | null => exact .of_succ fun _ _ _ _ _ => rfl
  | @bool b => cases b <;> exact .of_succ fun _ _ _ _ _ => rfl
  | number => exact readsBack_number _ _
  | string => exact readsBack_string _
  | array _ ih => exact readsBack_array ih
  | object _ ih => exact readsBack_object ih

/-- A document is read back from its text, on one line or over several lines. -/
theorem Plain.parse?_render {j : Json} (h : Plain j) (level : Option Nat) :
    parse? (String.ofList (j.render level)) = some j := by
  have hread := h.readsBack level (2 * (j.render level).length + 2) [] (by intro c hc; cases hc)
    (by omega)
  rw [List.append_nil] at hread
  simp only [parse?, String.toList_ofList, hread]
  rfl

end Values

end TileScript.Json
