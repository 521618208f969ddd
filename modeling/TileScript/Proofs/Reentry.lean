import TileScript.Proofs.Kind
import TileScript.Proofs.Words

/-! # Lines that are taken again

A line that stopped for a value goes on with a literal in it. Whatever kind of line it becomes, it
opens a block exactly if it did so before, and it never becomes a block keyword.
-/

namespace TileScript

open Text Chain

/-- Operands are words or parts of words. -/
theorem Condition.operand_no_space {p q : Span} {k : Clause × Span × Span}
    (h : k ∈ clauseSpans none (wordSpans p)) (hq : k.2.1 = q ∨ k.2.2 = q) : ' ' ∉ q.text := by
  obtain ⟨-, -, ⟨u, hu, hl⟩, v, hv, hr⟩ := of_mem_clauseSpans h
  have hw : ∃ w ∈ wordSpans p, ∃ g rest, w.text = g ++ q.text ++ rest := by
    rcases hq with rfl | rfl
    · obtain ⟨g, rest, ht, -⟩ := leftSpan_eq u
      exact ⟨u, hu, g, rest, hl ▸ ht⟩
    · obtain ⟨g, rest, ht, -⟩ := rightSpan_eq v
      exact ⟨v, hv, g, rest, hr ▸ ht⟩
  obtain ⟨w, hw, g, rest, ht⟩ := hw
  obtain ⟨x, y, -, -, hp⟩ := Span.piece_of_mem_split (List.mem_of_mem_filter hw)
  intro hm
  exact uncut_words_iff.1 hp.uncut (by simp [ht, hm])

/-- The calls of a condition have no spaces in them. -/
theorem LineSite.no_space {names : List (List Char)} {b r a : List Char}
    (h : LineSite names b r a) (hk : (Statement.ofLine (b ++ r ++ a)).kind = .branch) :
    ' ' ∉ r := by
  obtain ⟨hp, hs⟩ := h
  rename_i expr u b a w
  have hline : u ++ b ++ r ++ (a ++ w) = u ++ (b ++ r ++ a) ++ w := by simp
  rw [hline] at hk
  generalize ht : b ++ r ++ a = text at hp hk
  cases hp with
  | declare hl htb hn hd htr =>
    rw [Statement.ofLine_padded_declare hl htb htr] at hk
    cases hk
  | assign hl hm htb htv htr ho hc =>
    rw [Statement.ofLine_padded_assign hl htb htr ho hc] at hk
    cases hk
  | bare hl htb htr ho hc =>
    rw [Statement.ofLine_padded_bare hl htb htr ho hc] at hk
    cases hk
  | clause hl hm htb htr htc hmem hq =>
    have hn : ' ' ∉ text := Condition.operand_no_space hmem hq
    intro hr
    exact hn (by simp [← ht, hr])

section Suspends

variable {s : Scope} {f : Fiber} {σ σ' : EvalState} {q : CallRequest} {b r a b₁ a₁ : List Char}

/-- The awaited chain of an `if` line stands behind the keyword, wherever it occurs: it has no space
in it, and it ends with a parenthesis. -/
theorem Suspends.keyword_before (h : Suspends s f σ q σ' b r a)
    (hk : (Statement.ofLine s.line).kind = .branch) (hl : s.line = b₁ ++ r ++ a₁) :
    "if ".toList <+: trimStart b₁ := by
  have hspace : ' ' ∉ r := by
    obtain ⟨names, hs⟩ := h.site
    exact hs.no_space (h.line ▸ hk)
  have hif : "if ".toList <+: trim s.line := by
    have hs := h.stopping
    generalize Statement.ofLine s.line = st at hs hk
    cases hs with
    | branch hd => exact hd ▸ List.prefix_append _ _
    | declare | assign | bare => cases hk
  rw [h.trim_line hl] at hif
  rcases List.prefix_or_prefix_of_prefix hif (List.prefix_append _ _) with hp | ⟨x, hx⟩
  · exact hp
  · -- the chain would have to begin within the keyword
    have hxr : x <+: r ++ trimEnd a₁ := by
      rw [← hx] at hif
      exact (List.prefix_append_right_inj _).1 hif
    rcases List.prefix_or_prefix_of_prefix hxr (List.prefix_append _ _) with hp | hp
    · cases hxs : x.getLast? with
      | none =>
        rw [List.getLast?_eq_none_iff.1 hxs, List.append_nil] at hx
        exact hx ▸ List.prefix_rfl
      | some c =>
        have hc := congrArg List.getLast? hx
        rw [List.getLast?_append, hxs] at hc
        obtain rfl : c = ' ' := Option.some.inj hc
        exact absurd (hp.subset (List.mem_of_getLast? hxs)) hspace
    · have hm : ')' ∈ trimStart b₁ ++ x :=
        List.mem_append_right _ (hp.subset (List.mem_of_getLast? h.getLast?_eq))
      rw [hx] at hm
      exact absurd hm (by decide)

/-- With a literal in the place of the awaited chain, a line has the same part in the blocks around
it. -/
theorem Suspends.resumed_part (h : Suspends s f σ q σ' b r a) (v : Value)
    (hl : s.line = b₁ ++ r ++ a₁) :
    ((Statement.ofLine (b₁ ++ v.literal.toList ++ a₁)).kind = .branch ↔
      (Statement.ofLine s.line).kind = .branch) ∧
    (Statement.ofLine (b₁ ++ v.literal.toList ++ a₁)).kind ≠ .close ∧
    (Statement.ofLine (b₁ ++ v.literal.toList ++ a₁)).kind ≠ .otherwise := by
  have hif : "if ".toList <+: trimStart b₁ ↔ (Statement.ofLine s.line).kind = .branch := by
    refine ⟨fun hp => ?_, fun hk => h.keyword_before hk hl⟩
    obtain ⟨d, hd⟩ := hp.trans (List.prefix_append _ (r ++ trimEnd a₁))
    rw [← h.trim_line hl] at hd
    rw [Statement.ofLine_branch hd.symm]
    rfl
  have hblank : "if ".toList <+: trimStart b₁ → ¬ b₁.all isBlank := by
    rintro hp hb
    rw [trimStart_eq_nil.2 hb] at hp
    exact absurd hp (by decide)
  have hvar : "if ".toList <+: trimStart b₁ → ¬ "var ".toList <+: trimStart b₁ := by
    rintro ⟨x, hx⟩ ⟨y, hy⟩
    rw [← hx] at hy
    cases hy
  rw [Statement.kind_literal v.literal_spells (h.not_comment_before hl), ← hif]
  split_ifs <;> simp_all

end Suspends

end TileScript
