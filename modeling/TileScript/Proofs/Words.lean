import TileScript.Proofs.Occurrence

/-! # Conditions with another operand

A condition is cut into words at its spaces, whatever quotes they stand in. When a text without
spaces takes the place of a part of an operand, the clauses stay the same but for this operand.
-/

namespace TileScript

open Text

namespace Text

theorem words_eq (cs : List Char) :
    words cs = (splitWhere cutsWords (fun u _ => u) () cs).filter (!·.isEmpty) := by
  rw [words, splitOn_eq_splitWhere]

theorem uncut_words_iff {w : List Char} : Uncut cutsWords (fun u _ => u) () w ↔ ' ' ∉ w := by
  induction w with
  | nil => simp
  | cons c w ih =>
    rw [uncut_cons, ih, List.mem_cons, not_or, cutsWords, beq_eq_false_iff_ne, ne_comm]

/-- Another word in the place of one leaves the words around it alone. -/
theorem words_replace {p w : Span} {W₁ W₂ : List Span} (h : wordSpans p = W₁ ++ w :: W₂) :
    ∃ x y, p.text = x ++ w.text ++ y ∧ w.before = p.before ++ x ∧ ' ' ∉ w.text ∧
      ∀ w' : List Char, ' ' ∉ w' → w' ≠ [] →
        words (x ++ w' ++ y) = W₁.map Span.text ++ w' :: W₂.map Span.text := by
  obtain ⟨S, T, hST, rfl, hT⟩ := List.filter_eq_append_iff.1 h
  obtain ⟨T₁, T₂, rfl, hT₁, -, rfl⟩ := List.filter_eq_cons_iff.1 hT
  rw [← List.append_assoc] at hST
  obtain ⟨x, y, hx, hb, hp, hleft, hright⟩ := Span.piece_of_split_eq hST
  refine ⟨x, y, hx, hb, uncut_words_iff.1 hp.uncut, fun w' hw' hne => ?_⟩
  have hsplit : splitWhere cutsWords (fun u _ => u) () (x ++ w' ++ y) =
      (S ++ T₁).map Span.text ++ w' :: T₂.map Span.text := by
    rw [List.append_assoc, hleft, splitWhere_of_uncut (uncut_words_iff.2 hw'), hright]
    simp
  have hT₁ : T₁.filter (!·.text.isEmpty) = [] := by
    rw [List.filter_eq_nil_iff]
    exact hT₁
  have hmap (V : List Span) : (V.map Span.text).filter (!·.isEmpty) =
      (V.filter (!·.text.isEmpty)).map Span.text := List.filter_map ..
  rw [words_eq, hsplit, List.filter_append, List.filter_cons_of_pos (by simpa using hne), hmap,
    hmap, List.filter_append, hT₁, List.append_nil]

end Text

namespace Condition

/-- The clause that three words spell. -/
def clauseOf (joiner : Option Joiner) (op : Comparison) (word rightWord : List Char) : Clause where
  joiner
  opens := (stripOpens word).1
  left := (stripOpens word).2
  op
  right := (stripCloses rightWord).2
  closes := (stripCloses rightWord).1

theorem ofText?_ofList (op : Comparison) :
    Comparison.ofText? (String.ofList op.text.toList) = some op := by
  simp

theorem scan_comparison {word opWord rightWord : List Char} {op : Comparison}
    (hand : word ≠ "and".toList) (hor : word ≠ "or".toList)
    (ho : Comparison.ofText? (String.ofList opWord) = some op) (joiner : Option Joiner)
    (ws : List (List Char)) :
    scan joiner (word :: opWord :: rightWord :: ws) =
      (clauseOf joiner op word rightWord :: (scan none ws).1, (scan none ws).2) := by
  rw [scan.eq_def]
  simp only [hand, hor, if_false, ho]
  rfl

/-- Other operands in the place of those of a clause leave the other clauses alone. -/
theorem scan_replace {joiner : Option Joiner} {ws : List Span} {k : Clause × Span × Span}
    (h : k ∈ clauseSpans joiner ws) :
    ∃ W₁ w o z W₂ j op ks ls fault, ws = W₁ ++ w :: o :: z :: W₂ ∧ k.2 = (leftSpan w, rightSpan z) ∧
      w.text ≠ "and".toList ∧ w.text ≠ "or".toList ∧
      ∀ w' z' : List Char, w' ≠ "and".toList → w' ≠ "or".toList →
        scan joiner (W₁.map Span.text ++ w' :: o.text :: z' :: W₂.map Span.text) =
          (ks ++ clauseOf j op w' z' :: ls, fault) := by
  fun_induction clauseSpans joiner ws with
  | case1 | case4 | case6 => cases h
  | case2 joiner word ws hand ih =>
    obtain ⟨W₁, w, o, z, W₂, j, op, ks, ls, fault, rfl, hk, hw, hw', hscan⟩ := ih h
    refine ⟨word :: W₁, w, o, z, W₂, j, op, ks, ls, fault, rfl, hk, hw, hw',
      fun w' z' hw₁ hw₂ => ?_⟩
    rw [List.map_cons, List.cons_append, scan.eq_def]
    simp only [hand, if_true]
    exact hscan w' z' hw₁ hw₂
  | case3 joiner word ws hand hor ih =>
    obtain ⟨W₁, w, o, z, W₂, j, op, ks, ls, fault, rfl, hk, hw, hw', hscan⟩ := ih h
    refine ⟨word :: W₁, w, o, z, W₂, j, op, ks, ls, fault, rfl, hk, hw, hw',
      fun w' z' hw₁ hw₂ => ?_⟩
    rw [List.map_cons, List.cons_append, scan.eq_def]
    simp only [hor, if_true]
    exact hscan w' z' hw₁ hw₂
  | case5 joiner word hand hor o z rest op ho opens left hl closes right hr ih =>
    rcases List.mem_cons.1 h with rfl | h
    · refine ⟨[], word, o, z, rest, joiner, op, [], (scan none (rest.map Span.text)).1,
        (scan none (rest.map Span.text)).2, rfl, rfl, hand, hor, fun w' z' hw₁ hw₂ => ?_⟩
      exact scan_comparison hw₁ hw₂ ho joiner _
    · obtain ⟨W₁, w, o', z', W₂, j, op', ks, ls, fault, rfl, hk, hw, hw', hscan⟩ := ih h
      refine ⟨word :: o :: z :: W₁, w, o', z', W₂, j, op',
        clauseOf joiner op word.text z.text :: ks, ls, fault, rfl, hk, hw, hw',
        fun w' z'' hw₁ hw₂ => ?_⟩
      rw [List.map_cons, List.map_cons, List.map_cons, List.cons_append, List.cons_append,
        List.cons_append, scan_comparison hand hor ho, hscan w' z'' hw₁ hw₂]
      rfl

section Strip

variable {g core t : List Char}

theorem dropWhile_of_head? {p : Char → Bool} (h : ∀ c, core.head? = some c → p c = false) :
    core.dropWhile p = core ∧ core.takeWhile p = [] := by
  cases core with
  | nil => simp
  | cons c cs => simp [h c rfl]

theorem stripOpens_eq (hg : g.head? = some '(') (hgo : ∀ c ∈ g, isOpening c = true)
    (ht : t.all isBlank) (hne : core ≠ []) (hc : ∀ c, core.head? = some c → isOpening c = false)
    (hl : ∀ c, core.getLast? = some c → isBlank c = false) :
    stripOpens (g ++ core ++ t) = (g.count '(', core) := by
  have hh : (g ++ core ++ t).head? = some '(' := by
    rw [List.append_assoc, List.head?_append, hg, Option.some_or]
  have hc : ∀ c, (core ++ t).head? = some c → isOpening c = false := by
    intro c h
    rw [List.head?_append_of_ne_nil _ hne] at h
    exact hc c h
  rw [stripOpens, if_pos hh, List.append_assoc, List.takeWhile_append_of_pos hgo,
    List.dropWhile_append_of_pos hgo, (dropWhile_of_head? hc).1, (dropWhile_of_head? hc).2,
    trimEnd_append _ ht, trimEnd_of_getLast? hl, List.append_nil]

theorem stripCloses_eq (hg : g.all isBlank) (ht : t.getLast? = some ')')
    (htc : ∀ c ∈ t, isClosing c = true) (hne : core ≠ [])
    (hc : ∀ c, core.head? = some c → isBlank c = false)
    (hl : ∀ c, core.getLast? = some c → isClosing c = false) :
    stripCloses (g ++ core ++ t) = (t.count ')', core) := by
  have hh : (g ++ core ++ t).getLast? = some ')' := by
    rw [List.getLast?_append, ht, Option.some_or]
  have hl : ∀ c, (g ++ core).reverse.head? = some c → isClosing c = false := by
    intro c h
    rw [List.head?_reverse, List.getLast?_append_of_ne_nil _ hne] at h
    exact hl c h
  have htc : ∀ c ∈ t.reverse, isClosing c = true := fun c h => htc c (List.mem_reverse.1 h)
  have hg : ∀ c ∈ g, isBlank c = true := List.all_eq_true.1 hg
  rw [stripCloses, if_pos hh]
  dsimp only
  rw [List.reverse_append, List.takeWhile_append_of_pos htc, List.dropWhile_append_of_pos htc,
    (dropWhile_of_head? hl).1, (dropWhile_of_head? hl).2, List.append_nil, List.count_reverse,
    List.reverse_reverse, trimStart, List.dropWhile_append_of_pos hg, (dropWhile_of_head? hc).1]

variable {w : Span} {b r a : List Char}

theorem head?_around (hb : b ≠ []) (q : List Char) : (b ++ q ++ a).head? = b.head? := by
  rw [List.append_assoc, List.head?_append_of_ne_nil _ hb]

theorem getLast?_around (ha : a ≠ []) (q : List Char) : (b ++ q ++ a).getLast? = a.getLast? :=
  List.getLast?_append_of_ne_nil _ ha

/-- The parentheses before a left operand do not depend on its middle. -/
theorem leftSpan_replace (ht : (leftSpan w).text = b ++ r ++ a) (hb : b ≠ []) (ha : a ≠ []) :
    ∃ g h n, w.text = g ++ (b ++ r ++ a) ++ h ∧ (leftSpan w).before = w.before ++ g ∧
      ∀ q, stripOpens (g ++ (b ++ q ++ a) ++ h) = (n, b ++ q ++ a) := by
  unfold leftSpan stripOpens at ht
  unfold leftSpan
  split at ht
  · next hh =>
    obtain ⟨t, htb, hd⟩ := exists_trimEnd (w.text.dropWhile isOpening)
    have ht : trimEnd (w.text.dropWhile isOpening) = b ++ r ++ a := ht
    have hlast : ∀ c, a.getLast? = some c → isBlank c = false := by
      intro c hc
      rw [← getLast?_around ha r, ← ht] at hc
      exact isBlank_of_getLast?_trimEnd hc
    rw [ht] at hd
    have hfirst : ∀ c, b.head? = some c → isOpening c = false := by
      intro c hc
      have hn := List.head?_dropWhile_not isOpening w.text
      rw [hd, List.append_assoc, List.append_assoc, List.head?_append, hc, Option.some_or] at hn
      simpa using hn
    refine ⟨w.text.takeWhile isOpening, t, (w.text.takeWhile isOpening).count '(', ?_, by simp [hh],
      fun q => ?_⟩
    · rw [List.append_assoc, ← hd, List.takeWhile_append_dropWhile]
    · apply stripOpens_eq _ (fun c hc => List.mem_takeWhile_imp hc) htb (by simp [hb])
      · rwa [head?_around hb]
      · rwa [getLast?_around ha]
      · obtain ⟨cs, hcs⟩ := List.head?_eq_some_iff.1 hh
        simp [hcs, isOpening]
  · next hh =>
    have ht : w.text = b ++ r ++ a := ht
    refine ⟨[], [], 0, by simpa using ht, by simp [hh], fun q => ?_⟩
    rw [ht, head?_around hb] at hh
    rw [List.nil_append, List.append_nil, stripOpens, head?_around hb, if_neg hh]

/-- The parentheses behind a right operand do not depend on its middle. -/
theorem rightSpan_replace (ht : (rightSpan w).text = b ++ r ++ a) (hb : b ≠ []) (ha : a ≠ []) :
    ∃ g h n, w.text = g ++ (b ++ r ++ a) ++ h ∧ (rightSpan w).before = w.before ++ g ∧
      ∀ q, stripCloses (g ++ (b ++ q ++ a) ++ h) = (n, b ++ q ++ a) := by
  unfold rightSpan stripCloses at ht
  unfold rightSpan
  split at ht
  · next hh =>
    have ht : trimStart (w.text.reverse.dropWhile isClosing).reverse = b ++ r ++ a := ht
    have hfirst : ∀ c, b.head? = some c → isBlank c = false := by
      intro c hc
      rw [← head?_around hb r, ← ht] at hc
      exact isBlank_of_head?_trimStart hc
    have hd : (w.text.reverse.dropWhile isClosing).reverse =
        (w.text.reverse.dropWhile isClosing).reverse.takeWhile isBlank ++ (b ++ r ++ a) := by
      rw [← ht, trimStart, List.takeWhile_append_dropWhile]
    have hlast : ∀ c, a.getLast? = some c → isClosing c = false := by
      intro c hc
      have hn := List.head?_dropWhile_not isClosing w.text.reverse
      rw [← List.getLast?_reverse, hd, List.getLast?_append_of_ne_nil _ (by simp [ha]),
        getLast?_around ha, hc] at hn
      simpa using hn
    refine ⟨(w.text.reverse.dropWhile isClosing).reverse.takeWhile isBlank,
      (w.text.reverse.takeWhile isClosing).reverse,
      (w.text.reverse.takeWhile isClosing).reverse.count ')', ?_, by simp [hh], fun q => ?_⟩
    · rw [← hd, ← List.reverse_append, List.takeWhile_append_dropWhile, List.reverse_reverse]
    · apply stripCloses_eq (by simp) _ _ (by simp [hb])
      · rwa [head?_around hb]
      · rwa [getLast?_around ha]
      · rw [List.getLast?_reverse]
        rw [← List.head?_reverse] at hh
        obtain ⟨cs, hcs⟩ := List.head?_eq_some_iff.1 hh
        simp [hcs, isClosing]
      · intro c hc
        exact List.mem_takeWhile_imp (List.mem_reverse.1 hc)
  · next hh =>
    have ht : w.text = b ++ r ++ a := ht
    refine ⟨[], [], 0, by simpa using ht, by simp [hh], fun q => ?_⟩
    rw [ht, getLast?_around ha] at hh
    rw [List.nil_append, List.append_nil, stripCloses, getLast?_around ha, if_neg hh]

end Strip

/-- The texts of the operands of a condition. -/
def operandTexts (condition : List Char) : List (List Char) :=
  (parse condition).clauses.flatMap fun k => [k.left, k.right]

theorem operandTexts_of_scan {condition : List Char} {ks ls : List Clause} {k : Clause}
    {fault : Option Fault} (h : scan none (words condition) = (ks ++ k :: ls, fault)) :
    operandTexts condition = ks.flatMap (fun k => [k.left, k.right]) ++
      k.left :: k.right :: ls.flatMap fun k => [k.left, k.right] := by
  simp [operandTexts, parse, h]

/-- A text that stands in a word has its place in the condition. -/
theorem place_eq {before x y g rest g' h' core : List Char} {w : Span}
    (hx : g ++ core ++ rest = x ++ w.text ++ y) (hw : w.text = g' ++ core ++ h')
    (hb : before ++ g = w.before ++ g') (hwb : w.before = before ++ x) (core' : List Char) :
    g ++ core' ++ rest = x ++ (g' ++ core' ++ h') ++ y := by
  obtain rfl : g = x ++ g' := by
    rw [hwb, List.append_assoc] at hb
    exact List.append_cancel_left hb
  obtain rfl : rest = h' ++ y := by
    rw [hw] at hx
    simpa using hx
  simp

/-- A text without spaces in the middle of an operand leaves the other operands alone. -/
theorem operandTexts_replace {before g b r a q rest : List Char} {k : Clause × Span × Span}
    (hk : k ∈ clauseSpans none (wordSpans ⟨before, g ++ (b ++ r ++ a) ++ rest⟩))
    (ho : k.2.1 = ⟨before ++ g, b ++ r ++ a⟩ ∨ k.2.2 = ⟨before ++ g, b ++ r ++ a⟩)
    (hb : '(' ∈ b) (ha : a ≠ []) (hq : ' ' ∉ q) :
    ∃ xs ys, operandTexts (g ++ (b ++ r ++ a) ++ rest) = xs ++ (b ++ r ++ a) :: ys ∧
      operandTexts (g ++ (b ++ q ++ a) ++ rest) = xs ++ (b ++ q ++ a) :: ys := by
  have hbn : b ≠ [] := List.ne_nil_of_mem hb
  obtain ⟨W₁, w, o, z, W₂, j, op, ks, ls, fault, hws, hkz, hand, hor, hscan⟩ := scan_replace hk
  rw [hkz] at ho
  rcases ho with ho | ho
  · have htext : (leftSpan w).text = b ++ r ++ a := congrArg Span.text ho
    obtain ⟨g', h', n, hw, hbefore, hstrip⟩ := leftSpan_replace htext hbn ha
    obtain ⟨x, y, hx, hwb, hspace, hwords⟩ := words_replace hws
    rw [congrArg Span.before ho] at hbefore
    have hplace := place_eq hx hw hbefore hwb
    have hne (m : List Char) {c : List Char} (hc : '(' ∉ c) : g' ++ (b ++ m ++ a) ++ h' ≠ c := by
      rintro rfl
      simp [hb] at hc
    have htexts (m : List Char) (hm : ' ' ∉ g' ++ (b ++ m ++ a) ++ h') :
        operandTexts (g ++ (b ++ m ++ a) ++ rest) =
          ks.flatMap (fun k => [k.left, k.right]) ++ (b ++ m ++ a) ::
            (stripCloses z.text).2 :: ls.flatMap fun k => [k.left, k.right] := by
      have hs := hscan (g' ++ (b ++ m ++ a) ++ h') z.text (hne m (by decide)) (hne m (by decide))
      rw [hplace, operandTexts_of_scan (by rw [hwords _ hm (hne m (by simp))]; exact hs)]
      simp only [clauseOf, hstrip]
    rw [hw] at hspace
    exact ⟨_, _, htexts r hspace, htexts q (by simp_all)⟩
  · have htext : (rightSpan z).text = b ++ r ++ a := congrArg Span.text ho
    obtain ⟨g', h', n, hw, hbefore, hstrip⟩ := rightSpan_replace htext hbn ha
    have hws' : wordSpans ⟨before, g ++ (b ++ r ++ a) ++ rest⟩ = (W₁ ++ [w, o]) ++ z :: W₂ := by
      rw [hws, List.append_assoc]
      rfl
    obtain ⟨x, y, hx, hwb, hspace, hwords⟩ := words_replace hws'
    rw [congrArg Span.before ho] at hbefore
    have hplace := place_eq hx hw hbefore hwb
    have htexts (m : List Char) (hm : ' ' ∉ g' ++ (b ++ m ++ a) ++ h') :
        operandTexts (g ++ (b ++ m ++ a) ++ rest) =
          (ks.flatMap (fun k => [k.left, k.right]) ++ [(stripOpens w.text).2]) ++ (b ++ m ++ a) ::
            ls.flatMap fun k => [k.left, k.right] := by
      have hs := hscan w.text (g' ++ (b ++ m ++ a) ++ h') hand hor
      have hwm := hwords _ hm (by simp [hbn])
      rw [List.map_append, List.append_assoc (W₁.map Span.text)] at hwm
      rw [hplace, operandTexts_of_scan (by rw [hwm]; exact hs)]
      simp only [clauseOf, hstrip]
      simp
    rw [hw] at hspace
    exact ⟨_, _, htexts r hspace, htexts q (by simp_all)⟩

end Condition

end TileScript
