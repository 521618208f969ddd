import TileScript.Check
import TileScript.Proofs.Words

/-! # Rows of comparisons

A condition can be read if its words are comparisons and joiners, and at least one comparison is
among them. Whether it can be read, and the error if it cannot, does not depend on what the
comparisons yield. It does not depend on the operands either, as long as they are words: a call can
make room for any other text without spaces.
-/

namespace TileScript

open Text

theorem Comparison.eq_text {op : Comparison} {w : List Char}
    (h : ofText? (String.ofList w) = some op) : w = op.text.toList := by
  have ht : op.text = String.ofList w := by simpa using List.find?_some h
  rw [ht, String.toList_ofList]

namespace Condition

/-- Words that make up `n` comparisons, with joiners between them. -/
inductive Row : Nat → List (List Char) → Prop where

  | nil : Row 0 []

  | joiner {n : Nat} {w : List Char} {ws : List (List Char)} :
      w = "and".toList ∨ w = "or".toList → Row n ws → Row n (w :: ws)

  | comparison {n : Nat} {left right : List Char} {op : Comparison} {ws : List (List Char)} :
      left ≠ "and".toList → left ≠ "or".toList → Row n ws →
      Row (n + 1) (left :: op.text.toList :: right :: ws)

theorem scan_of_row {n : Nat} {ws : List (List Char)} (h : Row n ws) (joiner : Option Joiner) :
    ∃ ks, scan joiner ws = (ks, none) ∧ ks.length = n := by
  induction h generalizing joiner with
  | nil => exact ⟨[], rfl, rfl⟩
  | joiner hw _ ih =>
    rcases hw with rfl | rfl
    · obtain ⟨ks, hs, hn⟩ := ih (some .and)
      exact ⟨ks, by rw [scan.eq_def]; exact hs, hn⟩
    · obtain ⟨ks, hs, hn⟩ := ih (some .or)
      exact ⟨ks, by rw [scan.eq_def]; exact hs, hn⟩
  | @comparison n left right op ws hand hor _ ih =>
    obtain ⟨ks, hs, hn⟩ := ih none
    refine ⟨clauseOf joiner op left right :: ks, ?_, by simp [hn]⟩
    rw [scan_comparison hand hor (ofText?_ofList op), hs]

theorem row_of_scan {joiner : Option Joiner} {ws : List (List Char)}
    (h : (scan joiner ws).2 = none) : Row (scan joiner ws).1.length ws := by
  fun_induction scan joiner ws with
  | case1 => exact .nil
  | case2 _ ws ih => exact .joiner (.inl rfl) (ih h)
  | case3 _ ws _ ih => exact .joiner (.inr rfl) (ih h)
  | case4 | case6 => cases h
  | case5 joiner word hand hor opWord rightWord rest op ho opens left _ closes right _ clauses fault
      hs ih =>
    rw [hs] at ih
    rw [Comparison.eq_text ho]
    exact .comparison hand hor (ih h)

/-- An operand with a parenthesis can make room for another one. -/
theorem Row.replace {n : Nat} {W₁ W₂ : List (List Char)} {w w' : List Char}
    (h : Row n (W₁ ++ w :: W₂)) (hw : ')' ∈ w) (hand : w' ≠ "and".toList)
    (hor : w' ≠ "or".toList) : Row n (W₁ ++ w' :: W₂) := by
  generalize hws : W₁ ++ w :: W₂ = ws at h
  induction h generalizing W₁ with
  | nil => simp at hws
  | @joiner n v ws hv hr ih =>
    cases W₁ with
    | nil =>
      obtain ⟨rfl, -⟩ := List.cons.inj hws
      rcases hv with rfl | rfl <;> exact absurd hw (by decide)
    | cons u W₁ =>
      rw [List.cons_append, List.cons.injEq] at hws
      obtain ⟨rfl, hws⟩ := hws
      exact .joiner hv (ih hws)
  | @comparison n left right op ws hl₁ hl₂ hr ih =>
    match W₁ with
    | [] =>
      obtain ⟨-, rfl⟩ := List.cons.inj hws
      exact .comparison hand hor hr
    | [u] =>
      -- an operator has no parenthesis
      simp only [List.cons_append, List.nil_append, List.cons.injEq] at hws
      obtain ⟨-, rfl, -⟩ := hws
      cases op <;> exact absurd hw (by decide)
    | [u, o] =>
      simp only [List.cons_append, List.nil_append, List.cons.injEq] at hws
      obtain ⟨rfl, rfl, -, rfl⟩ := hws
      exact .comparison hl₁ hl₂ hr
    | u :: o :: z :: W₁ =>
      simp only [List.cons_append, List.cons.injEq] at hws
      obtain ⟨rfl, rfl, rfl, hws⟩ := hws
      exact .comparison hl₁ hl₂ (ih hws)

end Condition

section Evaluation

variable {t t' : Tally} {text : List Char} {e : ScriptError}

theorem Tally.isSome_value_add (t : Tally) (k : Clause) (result : Bool) :
    (t.add k result).value.isSome = true := by
  unfold Tally.add
  dsimp only
  repeat' split
  all_goals rfl

theorem Condition.conclude_congr {c : Condition} (ht : t.value.isSome = t'.value.isSome)
    (h : c.conclude t = .error e) : c.conclude t' = .error e := by
  unfold conclude at h ⊢
  cases hf : c.fault with
  | some f => rwa [hf] at h
  | none =>
    rw [hf] at h
    cases hv : t.value with
    | some b => simp [hv] at h
    | none =>
      have hv' : t'.value = none := by simpa [hv] using ht.symm
      rw [hv] at h
      rw [hv']
      exact h

theorem Tally.isSome_value_foldl (rows : List (Clause × Bool)) (t : Tally) :
    (rows.foldl (fun t x => t.add x.1 x.2) t).value.isSome = (t.value.isSome || !rows.isEmpty) := by
  induction rows generalizing t with
  | nil => simp
  | cons x rows ih => simp [ih, isSome_value_add]

/-- The check comes to the end of a condition, too. -/
theorem Check.exists_tally (text : List Char) :
    ∃ t : Tally, t.value.isSome = !(Condition.parse text).clauses.isEmpty ∧
      condition text = (Condition.parse text).conclude t := by
  refine ⟨((Condition.parse text).clauses.map (·, true)).foldl (fun t x => t.add x.1 x.2) {},
    ?_, ?_⟩
  · rw [Tally.isSome_value_foldl, List.isEmpty_map]
    rfl
  · simp [condition, Condition.evaluate, List.foldl_map]

/-- All evaluations that come to the end of a condition fail as the check does. -/
theorem Check.condition_of_conclude
    (ht : t.value.isSome = !(Condition.parse text).clauses.isEmpty)
    (h : (Condition.parse text).conclude t = .error e) : condition text = .error e := by
  obtain ⟨t', ht', hc⟩ := exists_tally text
  rw [hc]
  exact Condition.conclude_congr (ht.trans ht'.symm) h

/-- What the check accepts as a condition. -/
theorem Check.condition_ok_iff :
    (∃ b, condition text = .ok b) ↔ ∃ n, Condition.Row (n + 1) (words text) := by
  obtain ⟨t, hv, hc⟩ := exists_tally text
  rw [hc]
  constructor
  · rintro ⟨b, hb⟩
    unfold Condition.conclude at hb
    split at hb
    · cases hb
    · next hf ht =>
      have hrow : Condition.Row (Condition.parse text).clauses.length (words text) :=
        Condition.row_of_scan hf
      cases hk : (Condition.parse text).clauses with
      | nil => simp [hk, ht] at hv
      | cons k ks =>
        rw [hk] at hrow
        exact ⟨ks.length, hrow⟩
    · cases hb
  · rintro ⟨n, hn⟩
    obtain ⟨ks, hs, hlen⟩ := Condition.scan_of_row hn none
    have hf : (Condition.parse text).fault = none := by simp [Condition.parse, hs]
    have hne : (Condition.parse text).clauses ≠ [] := by
      simp only [Condition.parse, hs]
      exact List.ne_nil_of_length_eq_add_one hlen
    have hsome : t.value.isSome = true := by simp [hv, hne]
    obtain ⟨b, hb⟩ := Option.isSome_iff_exists.1 hsome
    exact ⟨b, by simp [Condition.conclude, hf, hb]⟩

end Evaluation

section Exchange

variable {σ : Type} {cut : σ → Char → Bool} {next : σ → Char → σ}

/-- What stands before a text is cut by itself, up to the piece that the text goes on. -/
theorem Text.splitWhere_append (s : σ) (x : List Char) :
    ∃ P u, ∀ z, splitWhere cut next s (x ++ z) =
      P ++ (splitWhere cut next (x.foldl next s) z).modifyHead (u ++ ·) := by
  induction x generalizing s with
  | nil =>
    refine ⟨[], [], fun z => ?_⟩
    obtain ⟨p, ps, hp⟩ := List.exists_cons_of_ne_nil (splitWhere_ne_nil cut next s z)
    simp [hp]
  | cons c x ih =>
    obtain ⟨P, u, hz⟩ := ih (next s c)
    cases hc : cut s c with
    | true => exact ⟨[] :: P, u, fun z => by simp [splitWhere, hc, hz]⟩
    | false =>
      cases P with
      | nil =>
        refine ⟨[], c :: u, fun z => ?_⟩
        obtain ⟨p, ps, hp⟩ := List.exists_cons_of_ne_nil
          (splitWhere_ne_nil cut next (x.foldl next (next s c)) z)
        simp [splitWhere, hc, hz, hp]
      | cons p P => exact ⟨(c :: p) :: P, u, fun z => by simp [splitWhere, hc, hz]⟩

/-- The words around a text without spaces. -/
theorem Text.words_around (x y : List Char) :
    ∃ W₁ u v W₂, ∀ q, ' ' ∉ q → q ≠ [] → words (x ++ q ++ y) = W₁ ++ (u ++ q ++ v) :: W₂ := by
  obtain ⟨P, u, hP⟩ := splitWhere_append () x
  obtain ⟨v, Q, hQ⟩ := List.exists_cons_of_ne_nil
    (splitWhere_ne_nil cutsWords (fun u _ => u) () y)
  refine ⟨P.filter (!·.isEmpty), u, v, Q.filter (!·.isEmpty), fun q hq hne => ?_⟩
  have hsplit : splitWhere cutsWords (fun u _ => u) () (x ++ q ++ y) =
      P ++ (u ++ q ++ v) :: Q := by
    rw [List.append_assoc, hP, splitWhere_of_uncut (uncut_words_iff.2 hq), hQ]
    simp
  rw [words_eq, hsplit, List.filter_append, List.filter_cons_of_pos (by simp [hne])]

/-- A text without spaces and with a sign that no joiner has can take the place of a call. -/
theorem Check.condition_exchange {x r y q : List Char} {c : Char} (hr : ' ' ∉ r) (hp : ')' ∈ r)
    (hq : ' ' ∉ q) (hc : c ∈ q) (hand : c ∉ "and".toList) (hor : c ∉ "or".toList)
    (h : ∃ b, condition (x ++ r ++ y) = .ok b) : ∃ b, condition (x ++ q ++ y) = .ok b := by
  obtain ⟨W₁, u, v, W₂, hwords⟩ := words_around x y
  obtain ⟨n, hn⟩ := condition_ok_iff.1 h
  rw [hwords r hr (List.ne_nil_of_mem hp)] at hn
  rw [condition_ok_iff]
  refine ⟨n, ?_⟩
  rw [hwords q hq (List.ne_nil_of_mem hc)]
  have hne {w : List Char} (hw : c ∉ w) : u ++ q ++ v ≠ w := by
    rintro rfl
    exact hw (by simp [hc])
  exact hn.replace (by simp [hp]) (hne hand) (hne hor)

end Exchange

end TileScript
