import TileScript.Proofs.Literal
import TileScript.Proofs.Words

/-! # Groups in conditions

Conditions as trees, with groups in groups, and how they are written. A condition comes to the value
of its tree, each group by itself, unless a group with several comparisons is the last of several in
a group around it: both then end with one comparison, which is joined to one of them only.
-/

namespace TileScript

open Text

namespace Condition

/-- A word that can stand as an operand of a comparison. -/
structure Word where
  text : List Char
  ne_nil : text ≠ []
  no_space : ' ' ∉ text
  no_opening : '(' ∉ text
  no_closing : ')' ∉ text
  ne_and : text ≠ "and".toList
  ne_or : text ≠ "or".toList
  trimmed : trim text = text

/-- Whether a tree is a single item of a row or a whole row. -/
inductive Shape where
  | item
  | row

/-- A condition with its groups. A row is joined from the left. -/
inductive Tree : Shape → Type where
  | compare (left : Word) (op : Comparison) (right : Word) : Tree .item
  | group (t : Tree .row) : Tree .item
  | alone (t : Tree .item) : Tree .row
  | join (t : Tree .row) (j : Joiner) (u : Tree .item) : Tree .row

end Condition

def Joiner.word : Joiner → List Char
  | .and => "and".toList
  | .or => "or".toList

theorem Condition.scan_joiner (joiner : Option Joiner) (j : Joiner) (ws : List (List Char)) :
    scan joiner (j.word :: ws) = scan (some j) ws := by
  cases j <;> rw [scan.eq_def] <;> rfl

namespace Condition.Tree

variable {σ : Shape}

/-- How a tree is written. -/
def text : {σ : Shape} → Tree σ → List Char
  | _, .compare left op right => left.text ++ [' '] ++ op.text.toList ++ [' '] ++ right.text
  | _, .group t => ['('] ++ t.text ++ [')']
  | _, .alone t => t.text
  | _, .join t j u => t.text ++ [' '] ++ j.word ++ [' '] ++ u.text

/-- The value of a tree, from left to right. All comparisons are made. -/
def eval {m : Type → Type} [Monad m] (cmp : List Char → Comparison → List Char → m Bool) :
    {σ : Shape} → Tree σ → m Bool
  | _, .compare left op right => cmp left.text op right.text
  | _, .group t => t.eval cmp
  | _, .alone t => t.eval cmp
  | _, .join t j u => do
    let a ← t.eval cmp
    let b ← u.eval cmp
    return Joiner.combine (some j) a b

/-- Whether a tree is a single comparison, perhaps in parentheses. -/
def isSingle : {σ : Shape} → Tree σ → Bool
  | _, .compare .. => true
  | _, .group t => t.isSingle
  | _, .alone t => t.isSingle
  | _, .join .. => false

/-- Whether the last of several items in a group is always a single comparison. `inside` tells
whether the tree itself ends with a group. -/
def isPlain (inside : Bool) : {σ : Shape} → Tree σ → Bool
  | _, .compare .. => true
  | _, .group t => t.isPlain true
  | _, .alone t => t.isPlain inside
  | _, .join t _ u => t.isPlain false && if inside then u.isSingle else u.isPlain false

section Writing

/-- The words of a tree inside `o` parentheses that open and `c` that close. -/
def words (o c : Nat) : {σ : Shape} → Tree σ → List (List Char)
  | _, .compare left op right =>
    [List.replicate o '(' ++ left.text, op.text.toList, right.text ++ List.replicate c ')']
  | _, .group t => t.words (o + 1) (c + 1)
  | _, .alone t => t.words o c
  | _, .join t j u => t.words o 0 ++ j.word :: u.words 0 c

/-- The clauses of a tree inside parentheses, behind a joiner. -/
def clauses (joiner : Option Joiner) (o c : Nat) : {σ : Shape} → Tree σ → List Clause
  | _, .compare left op right =>
    [{ joiner, opens := o, left := left.text, op, right := right.text, closes := c }]
  | _, .group t => t.clauses joiner (o + 1) (c + 1)
  | _, .alone t => t.clauses joiner o c
  | _, .join t j u => t.clauses joiner o 0 ++ u.clauses (some j) 0 c

@[simp] theorem words_compare (o c : Nat) (left : Word) (op : Comparison) (right : Word) :
    (compare left op right).words o c =
      [List.replicate o '(' ++ left.text, op.text.toList,
        right.text ++ List.replicate c ')'] := rfl

@[simp] theorem words_group (o c : Nat) (t : Tree .row) :
    (group t).words o c = t.words (o + 1) (c + 1) := rfl

@[simp] theorem words_alone (o c : Nat) (t : Tree .item) : (alone t).words o c = t.words o c := rfl

@[simp] theorem words_join (o c : Nat) (t : Tree .row) (j : Joiner) (u : Tree .item) :
    (join t j u).words o c = t.words o 0 ++ j.word :: u.words 0 c := rfl

theorem words_ne_nil (o c : Nat) (t : Tree σ) : t.words o c ≠ [] := by
  induction t generalizing o c with
  | compare => simp
  | group t ih => simpa using ih (o + 1) (c + 1)
  | alone t ih => simpa using ih o c
  | join => simp

/-- Words have no spaces and are not empty. -/
theorem mem_words {o c : Nat} {t : Tree σ} {w : List Char} (h : w ∈ t.words o c) :
    ' ' ∉ w ∧ w ≠ [] := by
  induction t generalizing o c with
  | compare left op right =>
    simp only [words_compare, List.mem_cons, List.not_mem_nil, or_false] at h
    rcases h with rfl | rfl | rfl
    · simp [left.no_space, left.ne_nil]
    · cases op <;> decide
    · simp [right.no_space, right.ne_nil]
  | group t ih => exact ih h
  | alone t ih => exact ih h
  | join t j u iht ihu =>
    simp only [words_join, List.mem_append, List.mem_cons] at h
    rcases h with h | rfl | h
    · exact iht h
    · cases j <;> decide
    · exact ihu h

theorem intercalate_append {ws vs : List (List Char)} (hw : ws ≠ []) (hv : vs ≠ []) :
    [' '].intercalate (ws ++ vs) = [' '].intercalate ws ++ [' '] ++ [' '].intercalate vs := by
  obtain ⟨v, vs, rfl⟩ := List.exists_cons_of_ne_nil hv
  induction ws with
  | nil => exact absurd rfl hw
  | cons w ws ih =>
    cases ws with
    | nil => simp [List.intercalate]
    | cons w' ws =>
      have ih := ih (by simp)
      rw [List.cons_append] at ih
      rw [List.cons_append, List.cons_append, List.intercalate_cons_cons, ih,
        List.intercalate_cons_cons]
      simp

/-- The text of a tree in parentheses has its words between spaces. -/
theorem text_eq (o c : Nat) (t : Tree σ) :
    List.replicate o '(' ++ t.text ++ List.replicate c ')' = [' '].intercalate (t.words o c) := by
  induction t generalizing o c with
  | compare left op right => simp [text, List.intercalate]
  | group t ih =>
    rw [words_group, ← ih, text, List.replicate_succ', List.replicate_succ]
    simp
  | alone t ih => exact ih o c
  | join t j u iht ihu =>
    have ht : List.replicate o '(' ++ t.text = [' '].intercalate (t.words o 0) := by
      simpa using iht o 0
    have hu : u.text ++ List.replicate c ')' = [' '].intercalate (u.words 0 c) := by
      simpa using ihu 0 c
    have hcons : j.word :: u.words 0 c = [j.word] ++ u.words 0 c := rfl
    rw [words_join, intercalate_append (words_ne_nil o 0 t) (by simp), hcons,
      intercalate_append (by simp) (words_ne_nil 0 c u), ← ht, ← hu]
    simp [text]

theorem words_text (t : Tree σ) : Text.words t.text = t.words 0 0 := by
  have ht : t.text = [' '].intercalate (t.words 0 0) := by simpa using text_eq 0 0 t
  rw [Text.words, ht, List.splitOn_intercalate]
  · rw [List.filter_eq_self]
    intro w hw
    simpa using (mem_words hw).2
  · exact fun w hw => (mem_words hw).1
  · exact words_ne_nil 0 0 t

theorem stripOpens_word (o : Nat) (w : Word) :
    stripOpens (List.replicate o '(' ++ w.text) = (o, w.text) := by
  have hhead : ∀ c, w.text.head? = some c → isOpening c = false := by
    intro c hc
    have hne : c ≠ '(' := by
      rintro rfl
      exact w.no_opening (List.mem_of_head? hc)
    have hb : isBlank c = false := isBlank_of_head?_trim (by rwa [w.trimmed])
    simp [isOpening, hne, hb]
  have hlast : ∀ c, w.text.getLast? = some c → isBlank c = false := by
    intro c hc
    exact isBlank_of_getLast?_trim (by rwa [w.trimmed])
  cases o with
  | zero =>
    have hh : w.text.head? ≠ some '(' := fun h => w.no_opening (List.mem_of_head? h)
    rw [List.replicate_zero, List.nil_append, stripOpens, if_neg hh]
  | succ o =>
    have h := stripOpens_eq (g := List.replicate (o + 1) '(') (t := []) rfl
      (by simp [isOpening]) rfl w.ne_nil hhead hlast
    simpa using h

theorem stripCloses_word (c : Nat) (w : Word) :
    stripCloses (w.text ++ List.replicate c ')') = (c, w.text) := by
  have hlast : ∀ c, w.text.getLast? = some c → isClosing c = false := by
    intro c hc
    have hne : c ≠ ')' := by
      rintro rfl
      exact w.no_closing (List.mem_of_getLast? hc)
    have hb : isBlank c = false := isBlank_of_getLast?_trim (by rwa [w.trimmed])
    simp [isClosing, hne, hb]
  have hhead : ∀ c, w.text.head? = some c → isBlank c = false := by
    intro c hc
    exact isBlank_of_head?_trim (by rwa [w.trimmed])
  cases c with
  | zero =>
    have hl : w.text.getLast? ≠ some ')' := fun h => w.no_closing (List.mem_of_getLast? h)
    rw [List.replicate_zero, List.append_nil, stripCloses, if_neg hl]
  | succ c =>
    have h := stripCloses_eq (g := []) (t := List.replicate (c + 1) ')') rfl
      (by rw [List.replicate_succ', List.getLast?_concat]) (by simp [isClosing]) w.ne_nil hhead
      hlast
    simpa using h

/-- A row of words is read as the clauses of the tree they spell. -/
theorem scan_words (joiner : Option Joiner) (o c : Nat) (t : Tree σ) (ws : List (List Char)) :
    scan joiner (t.words o c ++ ws) =
      (t.clauses joiner o c ++ (scan none ws).1, (scan none ws).2) := by
  induction t generalizing joiner o c ws with
  | compare left op right =>
    have hne {w : List Char} (hl : left.text ≠ w) (hp : '(' ∉ w) :
        List.replicate o '(' ++ left.text ≠ w := by
      rintro rfl
      cases o with
      | zero => exact hl rfl
      | succ o => simp [List.replicate_succ] at hp
    rw [words_compare, List.cons_append, List.cons_append, List.cons_append, List.nil_append,
      scan_comparison (hne left.ne_and (by decide)) (hne left.ne_or (by decide))
        (ofText?_ofList op)]
    simp only [clauseOf, stripOpens_word, stripCloses_word, clauses, List.cons_append,
      List.nil_append]
  | group t ih => exact ih joiner (o + 1) (c + 1) ws
  | alone t ih => exact ih joiner o c ws
  | join t j u iht ihu =>
    rw [words_join, List.append_assoc, iht, List.cons_append, scan_joiner, ihu, clauses,
      List.append_assoc]

theorem parse_text (t : Tree σ) :
    (parse t.text).clauses = t.clauses none 0 0 ∧ (parse t.text).fault = none := by
  have h := scan_words none 0 0 t []
  rw [List.append_nil, ← words_text] at h
  rw [parse, h]
  exact ⟨List.append_nil _, rfl⟩

end Writing

end Condition.Tree

namespace Tally

variable {s : Tally} {k : Clause} {j : Option Joiner} {n : Nat} {a r v : Bool}

/-- The tally without the last joiner, which counts only until another one is read. -/
def forget (s : Tally) : Tally := { s with joiner := none }

/-- Nothing is kept for groups that are not open. -/
def Fresh (s : Tally) : Prop := ∀ d, s.depth ≤ d → s.outer[d]? = none

/-- The tally behind a text that comes to `v` and leaves `n` groups open. -/
def merge (s : Tally) (j : Option Joiner) (n : Nat) (v : Bool) : Tally where
  depth := s.depth + n
  value :=
    match s.value with
    | none => some v
    | some a => if n = 0 then some (Joiner.combine j a v) else some v
  outer :=
    match s.value with
    | none => s.outer
    | some a => if n = 0 then s.outer else s.outer.insert s.depth (a, j)

theorem Fresh.merge (h : s.Fresh) (j : Option Joiner) (n : Nat) (v : Bool) :
    (s.merge j n v).Fresh := by
  intro d hd
  have hd : s.depth + n ≤ d := hd
  have hold := h d (by omega)
  unfold Tally.merge
  dsimp only
  split
  · exact hold
  · split
    · exact hold
    · rw [Std.ExtTreeMap.getElem?_insert,
        if_neg (by simp only [Std.LawfulEqCmp.compare_eq_iff_eq]; omega)]
      exact hold

/-- A clause that closes only groups of its own is one more text. -/
theorem forget_add (hk : k.closes ≤ k.opens) (hj : s.value.isSome → k.joiner.isSome) :
    (s.add k r).forget = s.merge k.joiner (k.opens - k.closes) r := by
  have hd : s.depth + k.opens - k.closes = s.depth + ((k.opens - k.closes : Nat) : Int) := by omega
  unfold add merge
  rw [hd]
  cases hv : s.value with
  | none => rfl
  | some a =>
    rw [hv] at hj
    obtain ⟨j, hj⟩ := Option.isSome_iff_exists.1 (hj rfl)
    rw [hj]
    by_cases hn : k.opens - k.closes = 0
    · simp [hn, forget]
    · have hlt : s.depth < s.depth + ((k.opens - k.closes : Nat) : Int) := by omega
      simp [hn, hlt, forget]

theorem erase_insert_self {m : Std.ExtTreeMap Int (Bool × Option Joiner)} {d : Int}
    {x : Bool × Option Joiner} (h : m[d]? = none) : (m.insert d x).erase d = m := by
  ext e : 1
  rw [Std.ExtTreeMap.getElem?_erase, Std.ExtTreeMap.getElem?_insert]
  by_cases he : d = e
  · subst he
    simp [h]
  · simp [he]

/-- A clause that closes groups around it ends the text in them. -/
theorem forget_add_close (hs : s.Fresh) (hk : k.opens < k.closes) (hn : k.closes ≤ k.opens + n)
    (hj : k.joiner.isSome) :
    ((s.merge j n a).add k r).forget =
      s.merge j (n + k.opens - k.closes) (Joiner.combine k.joiner a r) := by
  obtain ⟨i, hi⟩ := Option.isSome_iff_exists.1 hj
  have hpos : n ≠ 0 := by omega
  have hd : s.depth + n + k.opens - k.closes =
      s.depth + ((n + k.opens - k.closes : Nat) : Int) := by omega
  have hlt : s.depth + ((n + k.opens - k.closes : Nat) : Int) < s.depth + n := by omega
  have hge : ¬ s.depth + n < s.depth + ((n + k.opens - k.closes : Nat) : Int) := by omega
  generalize n + k.opens - k.closes = m at hd hlt hge
  have hnone : s.outer[s.depth + (m : Int)]? = none := hs _ (by omega)
  cases hv : s.value with
  | none => simp [add, merge, forget, hv, hi, hd, hlt, hge, hnone]
  | some b =>
    by_cases hm : m = 0
    · subst hm
      simp only [Int.natCast_zero, Int.add_zero] at hd hlt hge hnone
      have herase : (s.outer.insert s.depth (b, j)).erase s.depth = s.outer :=
        erase_insert_self hnone
      simp [add, merge, forget, hv, hi, hpos, hd, hlt, hge, herase]
    · have hkey : (s.outer.insert s.depth (b, j))[s.depth + (m : Int)]? = none := by
        rw [Std.ExtTreeMap.getElem?_insert, if_neg]
        · exact hnone
        · simp only [Std.LawfulEqCmp.compare_eq_iff_eq]
          omega
      simp [add, merge, forget, hv, hi, hpos, hd, hlt, hge, hkey, hm]

/-- More behind a text in the same group. -/
theorem merge_merge (h : s.value.isSome → 0 < n) (i : Joiner) :
    (s.merge j n a).merge (some i) 0 r = s.merge j n (Joiner.combine (some i) a r) := by
  cases hv : s.value with
  | none => simp [merge, hv]
  | some b =>
    have hn : n ≠ 0 := Nat.pos_iff_ne_zero.1 (h (by rw [hv]; rfl))
    simp [merge, hv, hn]

/-- A joiner that is read replaces the last one. -/
theorem add_forget (hj : k.joiner.isSome) : s.forget.add k r = s.add k r := by
  obtain ⟨j, hj⟩ := Option.isSome_iff_exists.1 hj
  unfold add forget
  simp only [hj]
  cases s.value with
  | none => rfl
  | some a => rfl

end Tally

namespace Condition.Tree

section

variable {σ : Shape} {m : Type → Type} [Monad m]
  {cmp : List Char → Comparison → List Char → m Bool}

/-- A single comparison is one clause, with its parentheses on both sides. -/
theorem clauses_of_isSingle (cmp : List Char → Comparison → List Char → m Bool) {t : Tree σ}
    (h : t.isSingle) :
    ∃ n left op right, (∀ joiner o c, t.clauses joiner o c =
        [{ joiner, opens := o + n, left, op, right, closes := c + n }]) ∧
      t.eval cmp = cmp left op right := by
  induction t with
  | compare left op right => exact ⟨0, left.text, op, right.text, fun _ _ _ => rfl, rfl⟩
  | group t ih =>
    obtain ⟨n, left, op, right, hk, he⟩ := ih h
    refine ⟨n + 1, left, op, right, fun joiner o c => ?_, he⟩
    rw [clauses, hk, Nat.add_assoc, Nat.add_assoc, Nat.add_comm 1 n]
  | alone t ih => exact ih h
  | join => cases h

theorem isPlain_of_isSingle {b : Bool} {t : Tree σ} (h : t.isSingle) : t.isPlain b := by
  induction t generalizing b with
  | compare => rfl
  | group t ih => exact ih h
  | alone t ih => exact ih h
  | join => cases h

theorem exists_clauses_eq (j : Option Joiner) (o c : Nat) (t : Tree σ) :
    ∃ k ks, t.clauses j o c = k :: ks ∧ k.joiner = j := by
  induction t generalizing j o c with
  | compare => exact ⟨_, _, rfl, rfl⟩
  | group t ih => exact ih j (o + 1) (c + 1)
  | alone t ih => exact ih j o c
  | join t i u iht _ =>
    obtain ⟨k, ks, hk, hj⟩ := iht j o 0
    exact ⟨k, ks ++ u.clauses (some i) 0 c, by rw [clauses, hk]; rfl, hj⟩

/-- Compares clauses, starting from a tally. -/
def tally (cmp : List Char → Comparison → List Char → m Bool) (s : Tally) (ks : List Clause) :
    m Tally := ks.foldlM (fun s k => return s.add k (← cmp k.left k.op k.right)) s

theorem tally_forget (s : Tally) (j : Joiner) (o c : Nat) (t : Tree σ) :
    tally cmp s.forget (t.clauses (some j) o c) = tally cmp s (t.clauses (some j) o c) := by
  obtain ⟨k, ks, hk, hj⟩ := exists_clauses_eq (some j) o c t
  have ha (r : Bool) : s.forget.add k r = s.add k r := Tally.add_forget (by rw [hj]; rfl)
  rw [hk, tally, tally, List.foldlM_cons, List.foldlM_cons]
  simp only [ha]

variable [LawfulMonad m]

theorem forget_tally_append (s : Tally) (ks : List Clause) (j : Joiner) (o c : Nat) (t : Tree σ) :
    Tally.forget <$> tally cmp s (ks ++ t.clauses (some j) o c) =
      (Tally.forget <$> tally cmp s ks) >>= fun s =>
        Tally.forget <$> tally cmp s (t.clauses (some j) o c) := by
  have happend : tally cmp s (ks ++ t.clauses (some j) o c) =
      tally cmp s ks >>= fun s => tally cmp s (t.clauses (some j) o c) := List.foldlM_append
  simp only [happend, map_bind, bind_map_left, tally_forget]

theorem tally_singleton (s : Tally) (k : Clause) :
    Tally.forget <$> tally cmp s [k] =
      (fun r => (s.add k r).forget) <$> cmp k.left k.op k.right := by
  simp [tally]

/-- A tree that closes no more groups than it opens is one more text with its value. A row starts
in a group of its own. -/
theorem tally_clauses {b : Bool} {t : Tree σ} (h : t.isPlain b) {j : Option Joiner} {o c : Nat}
    {s : Tally} (hs : s.Fresh) (hj : s.value.isSome → j.isSome) (hc : c ≤ o) (hb : 0 < c → b)
    (hrow : s.value.isSome → σ = .row → 0 < o) :
    Tally.forget <$> tally cmp s (t.clauses j o c) = s.merge j (o - c) <$> t.eval cmp := by
  induction t generalizing b j o c s with
  | compare left op right =>
    rw [clauses, tally_singleton, eval]
    congr 1
    funext r
    exact Tally.forget_add hc hj
  | group t ih =>
    have ih := ih (b := true) h hs hj (Nat.add_le_add_right hc 1) (fun _ => rfl)
      fun _ _ => Nat.succ_pos o
    rwa [Nat.add_sub_add_right] at ih
  | alone t ih => exact ih h hs hj hc hb fun _ hr => by cases hr
  | join t i u iht ihu =>
    have hrow' : s.value.isSome → 0 < o := fun hv => hrow hv rfl
    simp only [isPlain, Bool.and_eq_true] at h
    have ht := iht h.1 hs hj (Nat.zero_le o) (fun hc => absurd hc (Nat.lt_irrefl 0)) hrow
    have hu (a : Bool) : Tally.forget <$> tally cmp (s.merge j o a) (u.clauses (some i) 0 c) =
        (fun r => s.merge j (o - c) (Joiner.combine (some i) a r)) <$> u.eval cmp := by
      rcases Nat.eq_zero_or_pos c with rfl | hpos
      · have hp : ∃ b', u.isPlain b' := by
          cases b with
          | true => exact ⟨true, isPlain_of_isSingle (by simpa using h.2)⟩
          | false => exact ⟨false, by simpa using h.2⟩
        obtain ⟨b', hp⟩ := hp
        have ih := ihu hp (hs.merge j o a) (fun _ => rfl) (Nat.le_refl 0)
          (fun hc => absurd hc (Nat.lt_irrefl 0)) (j := some i) fun _ hr => by cases hr
        rw [ih]
        congr 1
        funext r
        exact Tally.merge_merge hrow' i
      · -- only a single comparison closes the group around it
        have hsingle : u.isSingle := by simpa [hb hpos] using h.2
        obtain ⟨n, left, op, right, hk, he⟩ := clauses_of_isSingle cmp hsingle
        rw [hk, tally_singleton, he]
        congr 1
        funext r
        rw [Tally.forget_add_close hs (by simp only; omega) (by simp only; omega) rfl]
        congr 1
        simp only
        omega
    rw [clauses, forget_tally_append, ht, Nat.sub_zero, bind_map_left]
    simp [hu, eval]

/-- A condition comes to what its clauses are tallied to. -/
theorem evaluate_eq (t : Tree σ) :
    (parse t.text).evaluate (fun k => cmp k.left k.op k.right) =
      (parse t.text).conclude <$> Tally.forget <$> tally cmp {} (t.clauses none 0 0) := by
  rw [evaluate, (parse_text t).1, ← comp_map, map_eq_pure_bind]
  rfl

theorem conclude_of_value {s : Tally} {v : Bool} (t : Tree σ) (h : s.value = some v) :
    (parse t.text).conclude s = .ok v := by
  rw [conclude, (parse_text t).2, h]

theorem tally_row {t : Tree .row} (h : t.isPlain false) :
    Tally.forget <$> tally cmp {} (t.clauses none 0 0) = Tally.merge {} none 0 <$> t.eval cmp := by
  have hs : Tally.Fresh {} := fun d _ => by simp
  exact tally_clauses h hs (fun hv => by cases hv) (Nat.le_refl 0)
    (fun hc => absurd hc (Nat.lt_irrefl 0)) fun hv => by cases hv

/-- A condition comes to the value of its tree, provided that the last of several items in a group
is always a single comparison. -/
theorem evaluate_text (t : Tree .row) (h : t.isPlain false) :
    (parse t.text).evaluate (fun k => cmp k.left k.op k.right) = do return .ok (← t.eval cmp) := by
  rw [evaluate_eq, tally_row h, ← comp_map, map_eq_pure_bind]
  congr 1
  funext v
  rw [Function.comp_apply, conclude_of_value t rfl]

/-- A group that ends together with the group around it is joined to what stands before that one.
What stands before it in its own group is lost. -/
theorem evaluate_lost {x y r : Tree .row} {u : Tree .item} (i j k : Joiner)
    (hx : x.isPlain false) (hy : y.isPlain false) (hr : r.isPlain false) (hu : u.isSingle) :
    (parse (x.join i (.group (y.join j (.group (r.join k u))))).text).evaluate
        (fun k => cmp k.left k.op k.right) = do
      let a ← x.eval cmp
      let _ ← y.eval cmp
      let c ← r.eval cmp
      let d ← u.eval cmp
      return .ok (Joiner.combine (some i) a (Joiner.combine (some k) c d)) := by
  generalize ht : x.join i (.group (y.join j (.group (r.join k u)))) = t
  have hclauses : t.clauses none 0 0 = x.clauses none 0 0 ++ y.clauses (some i) 1 0 ++
      r.clauses (some j) 1 0 ++ u.clauses (some k) 0 2 := by
    rw [← ht]
    simp [clauses]
  have hfresh (a : Bool) : (Tally.merge {} none 0 a).Fresh :=
    Tally.Fresh.merge (fun d _ => by simp) none 0 a
  have hopen {t : Tree .row} (h : t.isPlain false) {s : Tally} (hs : s.Fresh) (i : Joiner) :
      Tally.forget <$> tally cmp s (t.clauses (some i) 1 0) = s.merge (some i) 1 <$> t.eval cmp :=
    tally_clauses h hs (fun _ => rfl) (Nat.zero_le 1) (fun hc => absurd hc (Nat.lt_irrefl 0))
      fun _ _ => Nat.one_pos
  obtain ⟨n, left, op, right, hk, he⟩ := clauses_of_isSingle cmp hu
  have hclose (a b c d : Bool) :
      ((((Tally.merge {} none 0 a).merge (some i) 1 b).merge (some j) 1 c).add
        { joiner := some k, opens := 0 + n, left, op, right, closes := 2 + n } d).forget.value =
        some (Joiner.combine (some i) a (Joiner.combine (some k) c d)) := by
    simp [Tally.merge, Tally.add, Tally.forget, Std.ExtTreeMap.getElem_insert]
  rw [evaluate_eq, hclauses, forget_tally_append, forget_tally_append, forget_tally_append,
    tally_row hx, hk]
  simp only [tally_singleton, bind_map_left, hopen hy (hfresh _), bind_assoc,
    hopen hr ((hfresh _).merge (some i) 1 _), map_bind, he]
  simp only [map_eq_pure_bind, bind_assoc, pure_bind, conclude_of_value t (hclose ..)]

end

section Example

/-- A digit as an operand. -/
def digit (c : Char) (h : c.isDigit = true) : Word where
  text := [c]
  ne_nil := by simp
  no_space := by
    rintro h'
    obtain rfl : ' ' = c := by simpa using h'
    cases h
  no_opening := by
    rintro h'
    obtain rfl : '(' = c := by simpa using h'
    cases h
  no_closing := by
    rintro h'
    obtain rfl : ')' = c := by simpa using h'
    cases h
  ne_and := by simp
  ne_or := by simp
  trimmed := by
    have hb := Value.isBlank_of_isDigit h
    exact trim_of_ends (by simpa using hb) (by simpa using hb)

def one : Word := digit '1' rfl

def two : Word := digit '2' rfl

def three : Word := digit '3' rfl

/-- `1 == 2 or (1 == 2 and (2 == 3 or 3 == 3))` -/
def lost : Tree .row :=
  .join (.alone (.compare one .eq two)) .or (.group
    (.join (.alone (.compare one .eq two)) .and (.group
      (.join (.alone (.compare two .eq three)) .or (.compare three .eq three)))))

/-- Compares two words as values. -/
def compareWords (left : List Char) (op : Comparison) (right : List Char) :
    Except ScriptError Bool :=
  op.apply (.ofData (String.ofList left)) (.ofData (String.ofList right))

theorem evaluate_text_grouped :
    let t : Tree .row := .join (.alone (.compare one .eq two)) .or (.group
      (.join (.alone (.compare two .eq three)) .or (.compare three .eq three)))
    t.isPlain false = true ∧
      (parse t.text).evaluate (fun k => compareWords k.left k.op k.right) = do
        return .ok (← t.eval compareWords) := by
  intro t
  have h : t.isPlain false = true := rfl
  exact ⟨h, evaluate_text t h⟩

/-- The tree is false, but its condition comes to true. -/
theorem evaluate_text_lost :
    String.ofList lost.text = "1 == 2 or (1 == 2 and (2 == 3 or 3 == 3))" ∧
    (lost.eval compareWords).toOption = some false ∧
    ((parse lost.text).evaluate (fun k => compareWords k.left k.op k.right)).toOption.bind
      Except.toOption = some true := by
  decide +kernel

end Example

end Condition.Tree

end TileScript
