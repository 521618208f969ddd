import TileScript.Proofs.Data

/-! # Calls inside calls

Lines that have a text inside any number of calls. A literal that is read as one argument on all of
them is inert.
-/

namespace TileScript

open Text Chain

/-- The text of a call with the given parameters. -/
def applied (raw : List Char) : List Char := (['f'] ++ ['(']) ++ raw ++ [')']

/-- The beginning of `n` calls. -/
def opening : Nat → List Char
  | 0 => []
  | n + 1 => 'f' :: '(' :: opening n

/-- The end of `n` calls. -/
def closing (n : Nat) : List Char := List.replicate n ')'

/-- A text inside `n` calls. -/
def nested (n : Nat) (t : List Char) : List Char := opening n ++ t ++ closing n

section Nested

variable {n : Nat} {t q : List Char}

theorem nested_succ (n : Nat) (t : List Char) : nested (n + 1) t = applied (nested n t) := by
  simp [nested, applied, opening, closing, List.replicate_succ']

theorem closing_all (n : Nat) : (closing n).all Condition.isClosing := by
  simp [closing, Condition.isClosing]

theorem opening_agrees (n : Nat) :
    OperandScan.Agrees ((opening n).foldl OperandScan.step {}) ⟨⟨n, false⟩, none⟩ := by
  have h : ∀ (d : Int) (p : Option Char), (⟨⟨d, false⟩, p⟩ : OperandScan).expectsOperand = true →
      OperandScan.Agrees ((opening n).foldl OperandScan.step ⟨⟨d, false⟩, p⟩)
        ⟨⟨d + n, false⟩, none⟩ := by
    induction n with
    | zero =>
      intro d p hp
      exact ⟨by simp [opening], hp⟩
    | succ n ih =>
      intro d p _
      have hs : (⟨d + 1 + n, false⟩ : Nesting) = ⟨d + (n + 1 : Nat), false⟩ := by
        simp only [Nesting.mk.injEq, and_true]
        omega
      rw [← hs]
      exact ih (d + 1) (some '(') rfl
  simpa using h 0 none rfl

theorem opening_uncut (k : Cutter) (n : Nat) (s : OperandScan) :
    Uncut k.cuts OperandScan.step s (opening n) := by
  induction n generalizing s with
  | zero => trivial
  | succ n ih =>
    have hf (e : Bool) : k.selects e 'f' = false := selects_of_isHarmless rfl k e
    have hp (e : Bool) : k.selects e '(' = false := by
      rw [← Bool.not_eq_true]
      intro h
      cases (Cutter.isFlat_of_selects h).1
    refine ⟨?_, ?_, ih _⟩
    · rw [Cutter.cuts, hf, Bool.and_false]
    · rw [Cutter.cuts, hp, Bool.and_false]

/-- A text inside calls is cut where it is cut at their depth. -/
theorem uncut_nested {k : Cutter} : Uncut k.cuts OperandScan.step {} (nested n t) ↔
    Uncut k.cuts OperandScan.step ⟨⟨n, false⟩, none⟩ t := by
  rw [nested, uncut_append, uncut_append]
  constructor
  · rintro ⟨⟨-, h⟩, -⟩
    exact (opening_agrees n).uncut h
  · intro h
    refine ⟨⟨opening_uncut k n _, ?_⟩, uncut_of_isClosing (closing_all n)⟩
    exact OperandScan.Agrees.uncut ⟨(opening_agrees n).1.symm, (opening_agrees n).2.symm⟩ h

theorem trim_nested (ht : trim t = t) (hne : t ≠ []) : trim (nested n t) = nested n t := by
  rw [nested, trim_around hne ht, trimStart_of_head?, trimEnd_of_getLast?]
  · intro c hc
    obtain ⟨-, rfl⟩ := List.mem_replicate.1 (List.mem_of_getLast? hc)
    rfl
  · intro c hc
    cases n with
    | zero => cases hc
    | succ n =>
      cases hc
      rfl

end Nested

section Reading

variable {cs : List Char}

theorem Link.length_parse (ht : trim cs = cs) (hne : cs ≠ []) :
    (Link.parse cs).length = (fragments cs).length := by
  rw [Link.parse_eq]
  simp [segments, ht, hne]

/-- A chain of one link is not cut. -/
theorem Link.uncut_of_parse (ht : trim cs = cs) (hne : cs ≠ []) {l : Link}
    (h : Link.parse cs = [l]) :
    Uncut Cutter.chain.cuts OperandScan.step {} cs ∧
      l = Link.read cs 0 (Segment.ofFragment cs) := by
  have hu : Uncut Cutter.chain.cuts OperandScan.step {} cs := by
    apply uncut_of_length_lt
    rw [← fragments_eq, ← Link.length_parse ht hne, h]
    exact Nat.one_lt_two
  have hf : fragments cs = [] ++ cs :: [] := by
    rw [fragments_eq]
    exact splitWhere_uncut hu
  rw [Link.parse_fragments ht hne hf] at h
  exact ⟨hu, (List.cons.inj h).1.symm⟩

theorem Expr.of_parse_eq_chain {ls : List Link} (h : Expr.parse cs = .chain ls) :
    splitArithmetic? (trim cs) = none ∧ Link.parse (trim cs) = ls := by
  cases hs : splitArithmetic? (trim cs) with
  | some x =>
    rw [Expr.parse_arithmetic hs] at h
    cases h
  | none =>
    rw [Expr.parse_chain hs] at h
    exact ⟨rfl, Expr.chain.inj h⟩

theorem Expr.of_parse_eq_word {w : List Char} (ht : trim cs = cs) (hne : cs ≠ [])
    (h : Expr.parse cs = .chain [.word w]) :
    Uncut Cutter.chain.cuts OperandScan.step {} cs ∧ cs = w := by
  obtain ⟨-, h⟩ := of_parse_eq_chain h
  rw [ht] at h
  obtain ⟨hu, hl⟩ := Link.uncut_of_parse ht hne h
  refine ⟨hu, ?_⟩
  have hseg := Segment.text_ofFragment cs
  rw [ht] at hseg
  cases hs : Segment.ofFragment cs with
  | accessor t =>
    rw [hs] at hl hseg
    cases hl
    exact hseg.symm
  | call t =>
    rw [hs, Link.read] at hl
    split at hl <;> cases hl

theorem Text.trim_ne_nil {c : Char} (h : c ∈ cs) (hb : isBlank c = false) : trim cs ≠ [] := by
  intro hn
  obtain ⟨t, ht, hcs⟩ := exists_trim cs
  rw [hn, List.append_nil] at hcs
  rw [hcs, List.mem_append] at h
  rcases h with h | h
  · simp [List.mem_takeWhile_imp h] at hb
  · simp [List.all_eq_true.1 ht c h] at hb

/-- The last piece of a text has its last character, if the text is not cut there. -/
theorem Text.exists_last_piece {σ : Type} {cut : σ → Char → Bool} {next : σ → Char → σ} {s : σ}
    {c : Char} (hl : cs.getLast? = some c) (hc : ∀ s, cut s c = false) :
    ∃ P p, splitWhere cut next s cs = P ++ [p] ∧ c ∈ p := by
  induction cs generalizing s with
  | nil => cases hl
  | cons d cs ih =>
    cases cs with
    | nil =>
      obtain rfl : d = c := by simpa using hl
      exact ⟨[], [d], by simp [splitWhere, hc], by simp⟩
    | cons e cs =>
      obtain ⟨P, p, hp, hm⟩ := ih (s := next s d) (by simpa using hl)
      rw [splitWhere, hp]
      split
      · exact ⟨[] :: P, p, rfl, hm⟩
      · cases P with
        | nil => exact ⟨[], d :: p, rfl, List.mem_cons_of_mem d hm⟩
        | cons x P => exact ⟨(d :: x) :: P, p, rfl, hm⟩

/-- A text that is a single parameter is not cut. -/
theorem Chain.uncut_of_splitParams (ht : trim cs = cs) (hh : cs.head? ≠ some ',')
    (hl : cs.getLast? ≠ some ',') (h : (splitParams cs).length < 2) :
    Uncut Cutter.params.cuts OperandScan.step {} cs := by
  obtain ⟨p, ps, hp⟩ := List.exists_cons_of_ne_nil
    (splitWhere_ne_nil Cutter.params.cuts OperandScan.step {} cs)
  obtain ⟨hu, ⟨rfl, -⟩ | ⟨c, y, rfl, hc, rfl⟩⟩ := of_splitWhere_eq_cons hp
  · exact hu
  · exfalso
    obtain rfl : c = ',' := by
      simp only [Cutter.cuts, Cutter.selects, Bool.and_eq_true, beq_iff_eq] at hc
      exact hc.2
    -- the text has something to keep on both sides of the comma
    obtain ⟨d, p, rfl⟩ := List.exists_cons_of_ne_nil (l := p) (by rintro rfl; exact hh rfl)
    obtain ⟨e, he⟩ : ∃ e, y.getLast? = some e := by
      cases y with
      | nil => exact absurd List.getLast?_concat hl
      | cons e y => exact ⟨_, List.getLast?_cons⟩
    have hle : (d :: p ++ ',' :: y).getLast? = some e := by
      rw [List.getLast?_append, List.getLast?_cons, he]
      rfl
    have hhd : (trim (d :: p ++ ',' :: y)).head? = some d := by
      rw [ht]
      rfl
    have hd : isBlank d = false := isBlank_of_head?_trim hhd
    have hb : isBlank e = false := isBlank_of_getLast?_trim (by rw [ht]; exact hle)
    have hcut (s : OperandScan) : Cutter.params.cuts s e = false := by
      rw [Cutter.cuts, Bool.and_eq_false_iff]
      right
      rw [hle] at hl
      simpa [Cutter.selects] using hl
    obtain ⟨P, p', hP, hm⟩ : ∃ P p', splitWhere Cutter.params.cuts OperandScan.step
        (((d :: p).foldl OperandScan.step {}).step ',') y = P ++ [p'] ∧ e ∈ p' :=
      exists_last_piece he hcut
    have hfirst : (!(trim (d :: p)).isEmpty) = true := by
      simpa using trim_ne_nil List.mem_cons_self hd
    have hlast : (!(trim p').isEmpty) = true := by simpa using trim_ne_nil hm hb
    rw [splitParams_eq, hp, hP, List.map_cons, List.map_append, List.map_cons,
      List.filter_cons_of_pos (by exact hfirst), List.filter_append,
      List.filter_cons_of_pos (by exact hlast), List.length_cons, List.length_append,
      List.length_cons] at h
    omega

theorem Chain.splitParams_of_uncut (ht : trim cs = cs) (hne : cs ≠ [])
    (hu : Uncut Cutter.params.cuts OperandScan.step {} cs) : splitParams cs = [cs] := by
  rw [splitParams_eq, splitWhere_uncut hu]
  simp [ht, hne]

end Reading

section Exchange

variable {p w e e' : Expr}

theorem Link.AllAlike.alone {R : List Char → List Char → Prop} {ls ls' ms ms' : List Link}
    {l₀ l : Link} (hls : Link.AllAlike R ls ls') (hms : Link.AllAlike R ms ms')
    (h : [l] = ls ++ l₀ :: ms) : l = l₀ ∧ ls' = [] ∧ ms' = [] := by
  rcases List.append_eq_singleton_iff.1 h.symm with ⟨rfl, h⟩ | ⟨-, h⟩
  · obtain ⟨rfl, rfl⟩ := List.cons.inj h
    cases hls
    cases hms
    exact ⟨rfl, rfl, rfl⟩
  · cases h

/-- An exchange in a call is an exchange of or in one of its arguments. -/
theorem Expr.Exchange.of_call {name : String} {es : List Expr} {ρ : List Char}
    (h : Expr.Exchange p w (.chain [.call name es ρ]) e') :
    ∃ xs ys a a' ρ', es = xs ++ a :: ys ∧ e' = .chain [.call name (xs ++ a' :: ys) ρ'] ∧
      ((a = p ∧ a' = w) ∨ Expr.Exchange p w a a') := by
  generalize hc : Expr.chain [.call name es ρ] = c at h
  cases h with
  | here hls hms =>
    obtain ⟨hl, rfl, rfl⟩ := hls.alone hms (Expr.chain.inj hc)
    obtain ⟨rfl, rfl, rfl⟩ := Link.call.inj hl
    exact ⟨_, _, _, _, _, rfl, rfl, Or.inl ⟨rfl, rfl⟩⟩
  | argument hls hms h =>
    obtain ⟨hl, rfl, rfl⟩ := hls.alone hms (Expr.chain.inj hc)
    obtain ⟨rfl, rfl, rfl⟩ := Link.call.inj hl
    exact ⟨_, _, _, _, _, rfl, rfl, Or.inr h⟩
  | operand => cases hc

theorem Expr.Exchange.chain {ls : List Link} (h : Expr.Exchange p w (.chain ls) e') :
    ∃ ls', e' = .chain ls' := by
  cases h with
  | here | argument => exact ⟨_, rfl⟩

/-- Nothing is exchanged in a tree without arguments. -/
theorem Expr.Exchange.exists_argument {ls : List Link} (h : Expr.Exchange p w (.chain ls) e') :
    ∃ name es ρ, .call name es ρ ∈ ls ∧ es ≠ [] := by
  cases h with
  | here | argument => exact ⟨_, _, _, List.mem_append_right _ List.mem_cons_self, by simp⟩

end Exchange

section Applied

variable {raw raw' : List Char}

theorem trim_applied (raw : List Char) : trim (applied raw) = applied raw := by
  apply trim_of_ends
  · intro c hc
    cases hc
    rfl
  · intro c hc
    rw [applied, List.getLast?_concat] at hc
    cases hc
    rfl

theorem Link.read_applied (cs : List Char) (i : Nat) (raw : List Char) :
    Link.read cs i (Segment.ofFragment (applied raw)) =
      .call "f" ((splitParams raw).map Expr.parse) (upToSegment cs i) := by
  have hc : Segment.ofFragment (applied raw) = .call (applied raw) :=
    Segment.ofFragment_call (trim_applied raw) (by simp [applied]) (by simp [applied])
  exact Link.read_call hc (splitCall?_eq (by decide) (trim_applied raw))

theorem Link.parse_applied (hu : Uncut Cutter.chain.cuts OperandScan.step {} (applied raw)) :
    Link.parse (applied raw) =
      [.call "f" ((splitParams raw).map Expr.parse) (upToSegment (applied raw) 0)] := by
  have hne : applied raw ≠ [] := by simp [applied]
  have hf : fragments (applied raw) = [] ++ applied raw :: [] := by
    rw [fragments_eq]
    exact splitWhere_uncut hu
  rw [Link.parse_fragments (trim_applied raw) hne hf, Link.read_applied]
  rfl

theorem Statement.ordinary_applied (raw : List Char) : Ordinary (applied raw) := by
  have h : Ordinary (['f'] ++ '(' :: []) := {
    ne_nil := by decide
    not_comment := by decide
    not_close := by decide
    not_otherwise := by decide
    not_declare := fun d hd => by cases hd
    not_if := by decide
    not_branch := fun d hd => by cases hd }
  simpa [applied] using h.replace (Or.inr rfl) (raw ++ [')'])

theorem Statement.ofLine_applied (h : splitAssignment? (applied raw) = none) :
    ofLine (applied raw) = .bare (applied raw) := by
  have ho : Ordinary (trim (applied raw)) := by
    rw [trim_applied]
    exact ordinary_applied raw
  rw [ofLine_ordinary ho, trim_applied, h]

theorem Statement.unassigned_of_kind (h : (ofLine (applied raw)).kind = .bare) :
    splitAssignment? (applied raw) = none := by
  have ho : Ordinary (trim (applied raw)) := by
    rw [trim_applied]
    exact ordinary_applied raw
  rw [ofLine_ordinary ho, trim_applied] at h
  cases hs : splitAssignment? (applied raw) with
  | none => rfl
  | some x =>
    rw [hs] at h
    cases h

/-- What a value that is only data leaves alone in a call. -/
theorem OnlyData.of_applied {v : Value} {b r a : List Char} (h : OnlyData v b r a)
    (hold : b ++ r ++ a = applied raw) (hnew : b ++ v.literal.toList ++ a = applied raw')
    (hn : splitAssignment? (applied raw) = none)
    (hu : Uncut Cutter.chain.cuts OperandScan.step {} (applied raw)) :
    splitAssignment? (applied raw') = none ∧
      Uncut Cutter.chain.cuts OperandScan.step {} (applied raw') ∧
      ∃ xs ys e e', (splitParams raw).map Expr.parse = xs ++ e :: ys ∧
        (splitParams raw').map Expr.parse = xs ++ e' :: ys ∧
        ((e = .parse r ∧ e' = .chain [.word v.literal.toList]) ∨
          Expr.Exchange (.parse r) (.chain [.word v.literal.toList]) e e') := by
  have hne : applied raw' ≠ [] := by simp [applied]
  have hkind := h.kind
  rw [hold, hnew, Statement.ofLine_applied hn] at hkind
  have hn' := Statement.unassigned_of_kind hkind
  obtain ⟨es, fs, e, e', he, he', hex⟩ := h.exchange
  rw [hold, Statement.ofLine_applied hn, Statement.exprs] at he
  rw [hnew, Statement.ofLine_applied hn', Statement.exprs] at he'
  rw [Link.parse_applied hu] at he
  obtain ⟨rfl, rfl, rfl⟩ : es = [] ∧ _ = e ∧ fs = [] := by
    simpa [List.append_eq_singleton_iff, eq_comm] using he
  obtain ⟨xs, ys, x, x', ρ, hxs, rfl, hx⟩ := hex.of_call
  have hl := Expr.chain.inj (List.cons.inj he').1
  obtain ⟨hu', hl⟩ := Link.uncut_of_parse (trim_applied raw') hne hl
  rw [Link.read_applied] at hl
  exact ⟨hn', hu', xs, ys, x, x', hxs, (Link.call.inj hl).2.1.symm, hx⟩

end Applied

/-- The awaited call on the lines below. -/
def turn : List Char := "k.turn()".toList

section Turn

variable {v : Value} {n : Nat}

theorem trim_turn : trim turn = turn := by decide +kernel

theorem turn_ne_nil : turn ≠ [] := by decide

theorem uncut_turn (k : Cutter) {d : Nat} (h : k = .chain → 0 < d) :
    Uncut k.cuts OperandScan.step ⟨⟨d, false⟩, none⟩ turn := by
  cases k with
  | params => exact uncut_of_selects (by decide)
  | operands op => cases op <;> exact uncut_of_selects (by decide)
  | chain =>
    have hd : d ≠ 0 := Nat.pos_iff_ne_zero.1 (h rfl)
    rw [show turn = 'k' :: '.' :: "turn()".toList by decide]
    refine ⟨?_, ?_, uncut_of_selects (by decide)⟩
    · simp [Cutter.cuts, Cutter.selects, isSeparator]
    · simp [Cutter.cuts, Nesting.isTop, OperandScan.step, Nesting.step, hd]

theorem trim_nested_turn (n : Nat) : trim (nested n turn) = nested n turn :=
  trim_nested trim_turn turn_ne_nil

theorem applied_turn_uncut (n : Nat) :
    Uncut Cutter.chain.cuts OperandScan.step {} (applied (nested n turn)) := by
  rw [← nested_succ]
  exact uncut_nested.2 (uncut_turn .chain fun _ => Nat.succ_pos n)

theorem splitParams_turn (n : Nat) : splitParams (nested n turn) = [nested n turn] :=
  splitParams_of_uncut (trim_nested_turn n) (by simp [nested, turn_ne_nil])
    (uncut_nested.2 (uncut_turn .params (by simp)))

theorem splitArithmetic?_turn (n : Nat) : splitArithmetic? (nested n turn) = none :=
  splitArithmetic?_eq_none_iff.2 fun op => uncut_nested.2 (uncut_turn (.operands op) (by simp))

theorem Link.parse_turn (n : Nat) : Link.parse (nested (n + 1) turn) =
    [.call "f" [.parse (nested n turn)] (upToSegment (nested (n + 1) turn) 0)] := by
  rw [nested_succ, Link.parse_applied (applied_turn_uncut n), splitParams_turn, List.map_singleton]

theorem mem_opening {c : Char} (h : c ∈ opening n) : c = 'f' ∨ c = '(' := by
  induction n with
  | zero => cases h
  | succ n ih =>
    simp only [opening, List.mem_cons] at h
    rcases h with rfl | rfl | h
    · exact Or.inl rfl
    · exact Or.inr rfl
    · exact ih h

theorem nested_turn_unassigned (n : Nat) : splitAssignment? (nested n turn) = none := by
  have hm : '=' ∉ nested n turn := by
    intro h
    simp only [nested, List.mem_append, or_assoc] at h
    rcases h with h | h | h
    · cases mem_opening h with
      | inl h => cases h
      | inr h => cases h
    · revert h
      decide
    · cases (List.mem_replicate.1 h).2
  rw [splitAssignment?, cutAssignment?_of_not_mem hm]
  rfl

theorem unassigned_of_nested {q : List Char} (hl : q.getLast? ≠ some '=')
    (h : splitAssignment? (nested n q) = none) : cutAssignment? ⟨n, false⟩ none q = none := by
  have hlast (c : Char) (hc : (opening n).getLast? = some c) : c = 'f' ∨ c = '(' :=
    mem_opening (List.mem_of_getLast? hc)
  have hb : (opening n).getLast? ≠ some '=' := by
    intro hc
    cases hlast '=' hc with
    | inl h => cases h
    | inr h => cases h
  have hd : (opening n).foldl Nesting.step {} = ⟨n, false⟩ := by
    simpa [OperandScan.nesting_foldl] using (opening_agrees n).1
  have h : cutAssignment? {} none (nested n q) = none := by simpa [splitAssignment?] using h
  rw [nested, List.append_assoc, cutAssignment?_append hb, cutAssignment?_append hl, hd,
    Option.or_none] at h
  rw [← h.2.1]
  apply cutAssignment?_congr
  cases hc : (opening n).getLast? with
  | none => rfl
  | some c =>
    rcases hlast c hc with rfl | rfl
    · rfl
    · rfl

theorem nested_ends {q : List Char} (hs : v.Spells q) :
    (nested n q).head? ≠ some ',' ∧ (nested n q).getLast? ≠ some ',' := by
  cases n with
  | zero =>
    obtain ⟨c, hc, hcs⟩ := hs.head?_eq
    obtain ⟨d, hd, hds⟩ := hs.getLast?_eq
    have hq : nested 0 q = q := by simp [nested, opening, closing]
    rw [hq, hc, hd]
    constructor
    · rintro ⟨rfl⟩
      simp at hcs
    · rintro ⟨rfl⟩
      simp at hds
  | succ n =>
    rw [nested_succ, applied, List.getLast?_concat]
    simp

/-- What follows for a literal from being only data inside `n + 1` calls. -/
theorem OnlyData.of_nested (h : OnlyData v (opening (n + 1)) turn (closing (n + 1))) :
    cutAssignment? ⟨(n + 1 : Nat), false⟩ none v.literal.toList = none ∧
      Uncut Cutter.chain.cuts OperandScan.step ⟨⟨(n + 1 : Nat), false⟩, none⟩ v.literal.toList ∧
      Uncut Cutter.params.cuts OperandScan.step ⟨⟨n, false⟩, none⟩ v.literal.toList ∧
      ((Expr.parse (nested n turn) = .parse turn ∧
          Expr.parse (nested n v.literal.toList) = .chain [.word v.literal.toList]) ∨
        Expr.Exchange (.parse turn) (.chain [.word v.literal.toList]) (.parse (nested n turn))
          (.parse (nested n v.literal.toList))) := by
  have hs := v.literal_spells
  have htrim := trim_nested (n := n) hs.trim_eq hs.ne_nil
  obtain ⟨hn, hchain, xs, ys, e, e', he, he', hx⟩ := h.of_applied (nested_succ n turn)
    (nested_succ n v.literal.toList) (by rw [← nested_succ]; exact nested_turn_unassigned _)
    (applied_turn_uncut n)
  rw [← nested_succ] at hn hchain
  rw [splitParams_turn] at he
  obtain ⟨rfl, rfl, rfl⟩ : xs = [] ∧ _ = e ∧ ys = [] := by
    simpa [List.append_eq_singleton_iff, eq_comm] using he
  have hlen : (splitParams (nested n v.literal.toList)).length = 1 := by
    simpa using congrArg List.length he'
  have hparams : Uncut Cutter.params.cuts OperandScan.step {} (nested n v.literal.toList) := by
    obtain ⟨hhead, hlast⟩ := nested_ends (n := n) hs
    exact uncut_of_splitParams htrim hhead hlast (by omega)
  have hne : nested n v.literal.toList ≠ [] := by simp [nested, hs.ne_nil]
  rw [splitParams_of_uncut htrim hne hparams] at he'
  obtain rfl : _ = e' := (List.cons.inj he').1
  have hl : v.literal.toList.getLast? ≠ some '=' := by
    obtain ⟨c, hc, hcs⟩ := hs.getLast?_eq
    rw [hc]
    rintro ⟨rfl⟩
    simp at hcs
  exact ⟨unassigned_of_nested hl hn, uncut_nested.1 hchain, uncut_nested.1 hparams, hx⟩

theorem Expr.parse_turn : Expr.parse turn = .chain [.word ['k'], .call "turn" [] turn] := by
  have hn : splitArithmetic? (trim turn) = none := by decide +kernel
  have hs : segments turn = [.accessor ['k'], .call "turn()".toList] := by decide +kernel
  have hc : splitCall? "turn()".toList = some ("turn".toList, []) := by decide +kernel
  have hu : upToSegment turn 1 = turn := by decide +kernel
  rw [Expr.parse_chain hn, trim_turn, Link.parse_eq, hs, List.zipIdx_cons, List.zipIdx_singleton,
    List.map_cons, List.map_singleton, Link.read, Link.read, hc, hu]
  rfl

/-- Inside a single call the literal is the argument. -/
theorem OnlyData.parse_eq (h : OnlyData v (opening 1) turn (closing 1)) :
    Expr.parse v.literal.toList = .chain [.word v.literal.toList] := by
  have hzero (t : List Char) : nested 0 t = t := by simp [nested, opening, closing]
  obtain ⟨-, -, -, ⟨-, h⟩ | h⟩ := h.of_nested
  · rwa [hzero] at h
  · rw [hzero, Expr.parse_turn] at h
    obtain ⟨name, es, ρ', hm, hne⟩ := h.exists_argument
    simp_all

theorem OnlyData.splitArithmetic?_eq (h : OnlyData v (opening (n + 1)) turn (closing (n + 1))) :
    splitArithmetic? (nested n v.literal.toList) = none := by
  have hs := v.literal_spells
  have hold : splitArithmetic? (trim (nested n turn)) = none := by
    rw [trim_nested_turn, splitArithmetic?_turn]
  obtain ⟨ls, hls⟩ : ∃ ls, Expr.parse (nested n v.literal.toList) = .chain ls := by
    obtain ⟨-, -, -, ⟨-, h⟩ | h⟩ := h.of_nested
    · exact ⟨_, h⟩
    · rw [Expr.parse_chain hold] at h
      exact h.chain
  rw [← trim_nested hs.trim_eq hs.ne_nil]
  exact (Expr.of_parse_eq_chain hls).1

/-- A literal that is only data beside another argument closes what it opens. -/
theorem OnlyData.closed (h : OnlyData v "f(".toList turn ", 0)".toList)
    (hu : Uncut Cutter.params.cuts OperandScan.step {} v.literal.toList) :
    v.literal.toList.foldl Nesting.step {} = {} := by
  by_contra hne
  have hold : "f(".toList ++ turn ++ ", 0)".toList = applied (turn ++ ", 0".toList) := by decide
  have hnew : "f(".toList ++ v.literal.toList ++ ", 0)".toList =
      applied (v.literal.toList ++ ", 0".toList) := by simp [applied]
  obtain ⟨-, -, xs, ys, e, e', he, he', -⟩ := h.of_applied hold hnew (by decide +kernel)
    (uncut_of_length_lt (by decide +kernel))
  have hlen : (splitParams (turn ++ ", 0".toList)).length = 2 := by decide +kernel
  have hlen' : (splitParams (v.literal.toList ++ ", 0".toList)).length = 2 := by
    have h₁ := congrArg List.length he
    have h₂ := congrArg List.length he'
    simp only [List.length_map, List.length_append, List.length_cons] at h₁ h₂
    omega
  have hcut : Uncut Cutter.params.cuts OperandScan.step {} (v.literal.toList ++ ", 0".toList) := by
    rw [show ", 0".toList = ',' :: " 0".toList by decide, uncut_append]
    refine ⟨hu, ?_, uncut_of_selects (by decide)⟩
    rw [Cutter.cuts, Bool.and_eq_false_iff, ← Bool.not_eq_true, isTop_iff,
      OperandScan.nesting_foldl]
    exact Or.inl fun hz => hne hz.2
  rw [splitParams_eq, splitWhere_uncut hcut] at hlen'
  have hle := List.length_filter_le (!·.isEmpty) ([v.literal.toList ++ ", 0".toList].map trim)
  rw [hlen'] at hle
  exact absurd hle (by simp)

theorem OnlyData.inert (h : ∀ n, OnlyData v (opening (n + 1)) turn (closing (n + 1)))
    (h' : OnlyData v "f(".toList turn ", 0)".toList) : Inert v.literal.toList := by
  have hs := v.literal_spells
  have hparams (n : Nat) := (h n).of_nested.2.2.1
  refine ⟨h'.closed (hparams 0), fun d k => ?_, fun d => ?_⟩
  · cases k with
    | params => exact hparams d
    | operands op =>
      exact uncut_nested.1 (splitArithmetic?_eq_none_iff.1 (h d).splitArithmetic?_eq op)
    | chain =>
      cases d with
      | zero => exact (Expr.of_parse_eq_word hs.trim_eq hs.ne_nil (h 0).parse_eq).1
      | succ d => exact (h d).of_nested.2.1
  · exact_mod_cast (h d).of_nested.1

end Turn

end TileScript
