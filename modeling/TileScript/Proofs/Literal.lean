import TileScript.Proofs.Pieces
import TileScript.Value

/-! # Literals

The texts that stand for values, and that each is read as the value it stands for.
-/

namespace TileScript

open Text

namespace Text

theorem readDigits?_toDigits (n : Nat) : readDigits? (Nat.toDigits 10 n) = some n := by
  have hd : (Nat.toDigits 10 n).all Char.isDigit := by
    rw [List.all_eq_true]
    intro c hc
    exact Nat.isDigit_of_mem_toDigits (by decide) (by decide) hc
  simp [readDigits?, hd, Nat.toDigits_ne_nil, Nat.ofDigitChars_ten_toDigits]

end Text

namespace Value

/-- What a literal can look like. -/
inductive Spells : Value → List Char → Prop where

  | nat {n : Int64} {k : Nat} : n.toInt = k → Spells (.int n) (Nat.toDigits 10 k)

  | neg {n : Int64} {k : Nat} : n.toInt = -k → 0 < k → Spells (.int n) ('-' :: Nat.toDigits 10 k)

  | text {s : String} : Spells (.text s) ('"' :: s.toList ++ ['"'])

  | entity {id : EntityId} :
      Spells (.entity id) ("$Entity[".toList ++ Nat.toDigits 10 id.val.toNat ++ [']'])

  | item {id : ItemId} :
      Spells (.item id) ("$Item[".toList ++ Nat.toDigits 10 id.val.toNat ++ [']'])

theorem literal_spells (v : Value) : Spells v v.literal.toList := by
  cases v with
  | int n =>
    rw [literal, Int.repr_eq_if]
    split
    · next h =>
      rw [Nat.toList_repr]
      exact .nat (by omega)
    · next h =>
      rw [String.toList_append, Nat.toList_repr]
      exact .neg (by omega) (by omega)
  | text s =>
    have : (Value.text s).literal.toList = '"' :: s.toList ++ ['"'] := by simp [literal]
    rw [this]
    exact .text
  | entity id =>
    have : (Value.entity id).literal.toList =
        "$Entity[".toList ++ Nat.toDigits 10 id.val.toNat ++ [']'] := by
      simp [literal, EntityId.reference, EntityId.text]
    rw [this]
    exact .entity
  | item id =>
    have : (Value.item id).literal.toList =
        "$Item[".toList ++ Nat.toDigits 10 id.val.toNat ++ [']'] := by
      simp [literal, ItemId.reference, ItemId.text]
    rw [this]
    exact .item

section Ends

variable {v : Value} {cs : List Char}

theorem head?_toDigits (n : Nat) : ∃ c, (Nat.toDigits 10 n).head? = some c ∧ c.isDigit = true := by
  obtain ⟨c, ds, hc⟩ := List.exists_cons_of_ne_nil (Nat.toDigits_ne_nil (n := n) (b := 10))
  refine ⟨c, by rw [hc]; rfl, ?_⟩
  exact Nat.isDigit_of_mem_toDigits (n := n) (b := 10) (by decide) (by decide) (by simp [hc])

theorem getLast?_toDigits (n : Nat) :
    ∃ c, (Nat.toDigits 10 n).getLast? = some c ∧ c.isDigit = true := by
  have hne := Nat.toDigits_ne_nil (n := n) (b := 10)
  refine ⟨_, List.getLast?_eq_some_getLast hne, ?_⟩
  exact Nat.isDigit_of_mem_toDigits (by decide) (by decide) (List.getLast_mem hne)

/-- A literal begins with a sign, a digit, a quote or a dollar sign. -/
theorem Spells.head?_eq (h : Spells v cs) : ∃ c, cs.head? = some c ∧
    (c = '-' ∨ c.isDigit = true ∨ c = '"' ∨ c = '$') := by
  cases h with
  | @nat n k hk =>
    obtain ⟨c, hc, hd⟩ := head?_toDigits k
    exact ⟨c, hc, Or.inr (Or.inl hd)⟩
  | neg hk hp => exact ⟨'-', rfl, Or.inl rfl⟩
  | text => exact ⟨'"', rfl, Or.inr (Or.inr (Or.inl rfl))⟩
  | entity | item => exact ⟨'$', rfl, Or.inr (Or.inr (Or.inr rfl))⟩

theorem Spells.ne_nil (h : Spells v cs) : cs ≠ [] := by
  obtain ⟨c, hc, -⟩ := h.head?_eq
  rintro rfl
  cases hc

/-- A literal ends with a digit, a quote or a bracket. -/
theorem Spells.getLast?_eq (h : Spells v cs) : ∃ c, cs.getLast? = some c ∧
    (c.isDigit = true ∨ c = '"' ∨ c = ']') := by
  cases h with
  | @nat n k hk =>
    obtain ⟨c, hc, hd⟩ := getLast?_toDigits k
    exact ⟨c, hc, Or.inl hd⟩
  | @neg n k hk hp =>
    obtain ⟨c, hc, hd⟩ := getLast?_toDigits k
    refine ⟨c, ?_, Or.inl hd⟩
    rw [List.getLast?_cons, hc]
    rfl
  | text => exact ⟨'"', List.getLast?_concat .., Or.inr (Or.inl rfl)⟩
  | entity | item => exact ⟨']', List.getLast?_concat .., Or.inr (Or.inr rfl)⟩

theorem isBlank_of_isDigit {c : Char} (h : c.isDigit = true) : isBlank c = false := by
  have hb : 48 ≤ c.toNat ∧ c.toNat ≤ 57 := by
    simpa [Char.isDigit, UInt32.le_iff_toNat_le] using h
  simp only [isBlank, Bool.or_eq_false_iff, Bool.and_eq_false_iff, decide_eq_false_iff_not,
    beq_eq_false_iff_ne]
  omega

theorem trim_toDigits (k : Nat) : trim (Nat.toDigits 10 k) = Nat.toDigits 10 k := by
  apply trim_of_ends
  · intro c hc
    obtain ⟨d, hd, h⟩ := head?_toDigits k
    obtain rfl := Option.some.inj (hc.symm.trans hd)
    exact isBlank_of_isDigit h
  · intro c hc
    obtain ⟨d, hd, h⟩ := getLast?_toDigits k
    obtain rfl := Option.some.inj (hc.symm.trans hd)
    exact isBlank_of_isDigit h

theorem Spells.trim_eq (h : Spells v cs) : trim cs = cs := by
  apply trim_of_ends
  · intro c hc
    obtain ⟨d, hd, h⟩ := h.head?_eq
    obtain rfl := Option.some.inj (hc.symm.trans hd)
    rcases h with rfl | h | rfl | rfl
    · decide
    · exact isBlank_of_isDigit h
    · decide
    · decide
  · intro c hc
    obtain ⟨d, hd, h⟩ := h.getLast?_eq
    obtain rfl := Option.some.inj (hc.symm.trans hd)
    rcases h with h | rfl | rfl
    · exact isBlank_of_isDigit h
    · decide
    · decide

theorem readNat?_toDigits (k : Nat) : readNat? (Nat.toDigits 10 k) = some k := by
  obtain ⟨d, ds, hds⟩ := List.exists_cons_of_ne_nil (Nat.toDigits_ne_nil (n := k) (b := 10))
  obtain ⟨c, hc, hd⟩ := head?_toDigits k
  have hr := readDigits?_toDigits k
  rw [hds] at hc hr ⊢
  obtain rfl := Option.some.inj hc
  have hp : d ≠ '+' := by
    rintro rfl
    cases hd
  rw [readNat?, hr]
  simpa using hp

theorem readInt?_toDigits (k : Nat) : readInt? (Nat.toDigits 10 k) = some (k : Int) := by
  obtain ⟨d, ds, hds⟩ := List.exists_cons_of_ne_nil (Nat.toDigits_ne_nil (n := k) (b := 10))
  obtain ⟨c, hc, hd⟩ := head?_toDigits k
  have hr := readNat?_toDigits k
  rw [hds] at hc hr ⊢
  obtain rfl := Option.some.inj hc
  have hm : d ≠ '-' := by
    rintro rfl
    cases hd
  rw [readInt?, hr]
  · rfl
  · simpa using hm

theorem toInt64?_toInt (n : Int64) : toInt64? n.toInt = some n := by
  have h₁ := n.toInt_lt
  have h₂ := n.le_toInt
  rw [toInt64?, if_pos (by omega), Int64.ofInt_toInt]

theorem toUInt32?_toNat (n : UInt32) : toUInt32? n.toNat = some n := by
  have h := n.toNat_lt
  unfold toUInt32?
  split
  · rw [Int.toNat_natCast, UInt32.ofNat_toNat]
  · omega

theorem reference?_append (start : String) (ds : List Char) :
    reference? start (start.toList ++ ds ++ [']']) = readUInt32? (trim ds) := by
  have ha : afterPrefix? start.toList (start.toList ++ ds ++ [']']) = some (ds ++ [']']) := by
    rw [afterPrefix?, List.isPrefixOf?_eq_some_iff_append_eq, List.append_assoc]
  have hb : beforeSuffix? [']'] (ds ++ [']']) = some ds := by
    rw [beforeSuffix?, List.isSuffixOf?_eq_some_iff_append_eq]
  rw [reference?, ha]
  simp only [Option.bind_eq_bind, Option.bind_some, hb]

theorem readUInt32?_toDigits (n : UInt32) :
    readUInt32? (trim (Nat.toDigits 10 n.toNat)) = some n := by
  rw [trim_toDigits, readUInt32?, readNat?_toDigits, Option.bind_some, toUInt32?_toNat]

/-- A literal is read as the value it stands for. -/
theorem Spells.ofLiteral?_eq (h : Spells v cs) : ofLiteral? cs = some v := by
  rw [ofLiteral?, h.trim_eq]
  cases h with
  | nat hk => simp [readInt64?, readInt?_toDigits, ← hk, toInt64?_toInt]
  | neg hk hp => simp [readInt64?, readInt?, readDigits?_toDigits, ← hk, toInt64?_toInt]
  | text => 
    simp [readInt64?, readInt?, readNat?, readDigits?, quoted?]
  | @entity id =>
    generalize hd : Nat.toDigits 10 id.val.toNat = ds
    have hi : readInt64? ("$Entity[".toList ++ ds ++ [']']) = none := rfl
    have hq : quoted? ("$Entity[".toList ++ ds ++ [']']) = none := rfl
    rw [hi, hq, ← hd, reference?_append, readUInt32?_toDigits]
    rfl
  | @item id =>
    generalize hd : Nat.toDigits 10 id.val.toNat = ds
    have hi : readInt64? ("$Item[".toList ++ ds ++ [']']) = none := rfl
    have hq : quoted? ("$Item[".toList ++ ds ++ [']']) = none := rfl
    have he : reference? "$Entity[" ("$Item[".toList ++ ds ++ [']']) = none := rfl
    rw [hi, hq, he, ← hd, reference?_append, readUInt32?_toDigits]
    rfl

end Ends

end Value

end TileScript
