import TileScript.Proofs.Inert

/-! # Exchanging an argument

When an inert literal takes the place of a chain that is an argument of a call, the tree of the text
changes in this argument only, apart from the texts that the calls around it carry.
-/

namespace TileScript

open Text Chain

/-- The trees differ in one argument of a call, which is `p` in one and `q` in the other. The texts
of calls may differ as well. -/
inductive Expr.Exchange (p q : Expr) : Expr → Expr → Prop where

  | here {ls ls' ms ms' : List Link} {name : String} {es fs : List Expr} {r r' : List Char} :
      Link.AllAlike (fun _ _ => True) ls ls' → Link.AllAlike (fun _ _ => True) ms ms' →
      Expr.Exchange p q (.chain (ls ++ .call name (es ++ p :: fs) r :: ms))
        (.chain (ls' ++ .call name (es ++ q :: fs) r' :: ms'))

  | argument {ls ls' ms ms' : List Link} {name : String} {es fs : List Expr} {r r' : List Char}
      {e e' : Expr} : Link.AllAlike (fun _ _ => True) ls ls' →
      Link.AllAlike (fun _ _ => True) ms ms' → Expr.Exchange p q e e' →
      Expr.Exchange p q (.chain (ls ++ .call name (es ++ e :: fs) r :: ms))
        (.chain (ls' ++ .call name (es ++ e' :: fs) r' :: ms'))

  | operand {op : ArithmeticOp} {es fs : List Expr} {e e' : Expr} : Expr.Exchange p q e e' →
      Expr.Exchange p q (.arithmetic op (es ++ e :: fs)) (.arithmetic op (es ++ e' :: fs))

/-- The tree of a text that is read as an expression or as a chain. -/
def Expr.parseAs : Bool → List Char → Expr
  | true, text => .parse text
  | false, text => .chain (Link.parse text)

theorem Expr.parseAs_eq {expr : Bool} {text cs : List Char} (ht : trim text = cs)
    (hn : expr = true → splitArithmetic? cs = none) :
    Expr.parseAs expr text = .chain (Link.parse cs) := by
  subst ht
  cases expr with
  | true => rw [Expr.parseAs, Expr.parse_chain (hn rfl)]
  | false => rw [Expr.parseAs, Link.parse_trim]

namespace Chain

theorem operands_eq (op : ArithmeticOp) (cs : List Char) :
    operands op cs = splitWhere (Cutter.operands op).cuts OperandScan.step {} cs :=
  (splitWhere_map (h := id) (Cutter.cuts_operands op) (fun _ _ => rfl) {} cs).symm

theorem fragments_eq (cs : List Char) :
    fragments cs = splitWhere Cutter.chain.cuts OperandScan.step {} cs :=
  (splitWhere_map Cutter.cuts_chain nesting_step {} cs).symm

theorem splitParams_eq (cs : List Char) :
    splitParams cs =
      ((splitWhere Cutter.params.cuts OperandScan.step {} cs).map trim).filter (!·.isEmpty) := by
  rw [splitParams, splitWhere_map Cutter.cuts_params nesting_step {} cs]

theorem length_operands_lt_iff {op : ArithmeticOp} {cs : List Char} :
    (operands op cs).length < 2 ↔ Uncut (Cutter.operands op).cuts OperandScan.step {} cs := by
  rw [operands_eq]
  refine ⟨uncut_of_length_lt, fun h => ?_⟩
  rw [splitWhere_uncut h]
  exact Nat.one_lt_two

/-- A text is a chain if no operator cuts it. -/
theorem splitArithmetic?_eq_none_iff {cs : List Char} :
    splitArithmetic? cs = none ↔
      ∀ op, Uncut (Cutter.operands op).cuts OperandScan.step {} cs := by
  rw [splitArithmetic?, List.findSome?_eq_none_iff]
  constructor
  · intro h op
    have hop := h op (by cases op <;> decide)
    dsimp only at hop
    split at hop
    · cases hop
    · next hl => exact length_operands_lt_iff.1 (by omega)
  · intro h op _
    have hl := length_operands_lt_iff.2 (h op)
    exact if_neg (by omega)

/-- The operator at which a text is cut stays the same if the text is cut alike. -/
theorem splitArithmetic?_replace {cs cs' : List Char} {op : ArithmeticOp} {ps : List (List Char)}
    (h : splitArithmetic? cs = some (op, ps))
    (hu : ∀ o, Uncut (Cutter.operands o).cuts OperandScan.step {} cs →
      Uncut (Cutter.operands o).cuts OperandScan.step {} cs')
    (hl : (operands op cs').length = (operands op cs).length) :
    splitArithmetic? cs' = some (op, (operands op cs').map trim) := by
  rw [splitArithmetic?, List.findSome?_eq_some_iff] at h ⊢
  obtain ⟨os, o, os', ho, hcut, hbefore⟩ := h
  refine ⟨os, o, os', ho, ?_, ?_⟩
  · dsimp only at hcut ⊢
    split at hcut
    · next h₂ =>
      cases hcut
      rw [if_pos (by omega)]
    · cases hcut
  · intro o' ho'
    have hn := hbefore o' ho'
    dsimp only at hn ⊢
    split at hn
    · cases hn
    · next h₂ =>
      have := length_operands_lt_iff.2 (hu o' (length_operands_lt_iff.1 (by omega)))
      exact if_neg (by omega)

theorem splitCall?_eq {nm raw : List Char} (hn : '(' ∉ nm)
    (ht : trim ((nm ++ ['(']) ++ raw ++ [')']) = (nm ++ ['(']) ++ raw ++ [')']) :
    splitCall? ((nm ++ ['(']) ++ raw ++ [')']) = some (trim nm, raw) := by
  have hnm : ∀ c ∈ nm, (c != '(') = true := by
    intro c hc
    rw [bne_iff_ne]
    rintro rfl
    exact hn hc
  have he : (nm ++ ['(']) ++ raw ++ [')'] = nm ++ '(' :: (raw ++ [')']) := by simp
  rw [splitCall?, ht, he]
  simp [List.dropWhile_append_of_pos hnm, List.takeWhile_append_of_pos hnm]

end Chain

/-- The links of a chain around one of its fragments. -/
theorem Link.parse_fragments {cs f : List Char} {P Q : List (List Char)} (ht : trim cs = cs)
    (hne : cs ≠ []) (hf : fragments cs = P ++ f :: Q) :
    Link.parse cs = (P.map Segment.ofFragment).zipIdx.map (fun x => Link.read cs x.2 x.1) ++
      Link.read cs P.length (Segment.ofFragment f) ::
        ((Q.map Segment.ofFragment).zipIdx (P.length + 1)).map fun x => Link.read cs x.2 x.1 := by
  have hs : segments cs = (fragments cs).map Segment.ofFragment := by
    simp [segments, ht, hne]
  rw [Link.parse_eq, hs, hf, List.map_append, List.map_cons, List.zipIdx_append, List.zipIdx_cons]
  simp

theorem Link.read_alike (cs cs' : List Char) (xs : List (Segment × Nat)) :
    Link.AllAlike (fun _ _ => True) (xs.map fun x => Link.read cs x.2 x.1)
      (xs.map fun x => Link.read cs' x.2 x.1) := by
  refine .map fun x _ => ?_
  obtain ⟨s, i⟩ := x
  cases s with
  | accessor t => exact .word .nil
  | call t =>
    simp only [Link.read]
    cases splitCall? t with
    | none => exact .malformed .nil
    | some y => exact .call (.refl (fun _ => trivial) _) trivial .nil

theorem Link.read_call {cs c name raw : List Char} {i : Nat} (hc : Segment.ofFragment c = .call c)
    (hs : splitCall? c = some (name, raw)) : Link.read cs i (Segment.ofFragment c) =
      .call (String.ofList name) ((splitParams raw).map Expr.parse) (upToSegment cs i) := by
  rw [hc, Link.read, hs]

theorem Segment.ofFragment_pad {m c n : List Char} (hm : m.all isBlank) (hn : n.all isBlank)
    (hc : trim c = c) : Segment.ofFragment (m ++ c ++ n) = Segment.ofFragment c := by
  rw [Segment.ofFragment, trim_pad hm hn hc, Segment.ofFragment, hc]

theorem Segment.ofFragment_call {c : List Char} (ht : trim c = c) (hh : c.head? ≠ some '"')
    (hm : '(' ∈ c) : Segment.ofFragment c = .call c := by
  rw [Segment.ofFragment, ht, if_pos]
  simpa using ⟨hh, hm⟩

theorem Segment.head?_of_call {c : List Char} (ht : trim c = c)
    (h : Segment.ofFragment c = .call c) : c.head? ≠ some '"' := by
  rw [Segment.ofFragment, ht] at h
  split at h
  · next hc =>
    simp only [Bool.and_eq_true, bne_iff_ne] at hc
    exact hc.1
  · cases h

section Exchange

variable {d : Nat} {b r a q : List Char} {v : Value} (htr : trim r = r)
  (hr : r.getLast? = some ')') (hs : v.Spells q)
include htr hr hs

theorem trim_exchange (h : trim (b ++ r ++ a) = b ++ r ++ a) :
    trim (b ++ q ++ a) = b ++ q ++ a := by
  have hne : r ≠ [] := by
    rintro rfl
    cases hr
  exact trim_replace h hne htr hs.ne_nil hs.trim_eq

variable (hq : Inert q)
include hq

theorem Operand.exchange {op : ArithmeticOp} {l x m n y t : List Char}
    (h : Operand op l x m (b ++ r ++ a) n y t) (hh : Hole d b r a) :
    ∃ es fs, Expr.parse (l ++ x ++ m ++ (b ++ r ++ a) ++ (n ++ y ++ t)) =
        .arithmetic op (es ++ Expr.parse (b ++ r ++ a) :: fs) ∧
      Expr.parse (l ++ x ++ m ++ (b ++ q ++ a) ++ (n ++ y ++ t)) =
        .arithmetic op (es ++ Expr.parse (b ++ q ++ a) :: fs) := by
  have hhole : Hole d (x ++ (m ++ b)) r ((a ++ n) ++ y) := by
    simpa using h.topPiece.hole h.expects h.blank_m h.blank_n hh
  obtain ⟨P, Q, hP, hQ⟩ := hhole.replace_piece hr hs hq (by simpa using h.topPiece)
  have hold : operands op (x ++ (m ++ (b ++ r ++ a) ++ n) ++ y) =
      P ++ (m ++ (b ++ r ++ a) ++ n) :: Q := by
    rw [operands_eq]
    simpa using hP
  have hnew : operands op (x ++ (m ++ (b ++ q ++ a) ++ n) ++ y) =
      P ++ (m ++ (b ++ q ++ a) ++ n) :: Q := by
    rw [operands_eq]
    simpa using hQ
  have hcut : splitArithmetic? (x ++ (m ++ (b ++ q ++ a) ++ n) ++ y) =
      some (op, (operands op (x ++ (m ++ (b ++ q ++ a) ++ n) ++ y)).map trim) := by
    obtain ⟨ps, hps⟩ := h.cut
    refine splitArithmetic?_replace hps (fun o ho => ?_) (by rw [hold, hnew]; simp)
    simpa using hhole.replace_uncut hr hs hq (by simpa using ho)
  have htrim : trim (x ++ (m ++ (b ++ q ++ a) ++ n) ++ y) =
      x ++ (m ++ (b ++ q ++ a) ++ n) ++ y := by
    simpa using trim_exchange htr hr hs (b := x ++ m ++ b) (a := a ++ n ++ y)
      (by simpa using h.trimmed)
  have hp := trim_exchange htr hr hs h.trimmed_operand
  refine ⟨(P.map trim).map Expr.parse, (Q.map trim).map Expr.parse, ?_, ?_⟩
  · obtain ⟨ps, hps⟩ := h.cut
    obtain rfl := (of_splitArithmetic? hps).2
    have hpad := trim_pad h.blank_l h.blank_t h.trimmed
    rw [show l ++ x ++ m ++ (b ++ r ++ a) ++ (n ++ y ++ t) =
      l ++ (x ++ (m ++ (b ++ r ++ a) ++ n) ++ y) ++ t by simp,
      Expr.parse_arithmetic (by rw [hpad]; exact hps), hold]
    simp only [List.map_append, List.map_cons, trim_pad h.blank_m h.blank_n h.trimmed_operand]
  · have hpad := trim_pad h.blank_l h.blank_t htrim
    rw [show l ++ x ++ m ++ (b ++ q ++ a) ++ (n ++ y ++ t) =
      l ++ (x ++ (m ++ (b ++ q ++ a) ++ n) ++ y) ++ t by simp,
      Expr.parse_arithmetic (by rw [hpad]; exact hcut), hnew]
    simp only [List.map_append, List.map_cons, trim_pad h.blank_m h.blank_n hp]

theorem Param.exchange {x m n y : List Char} (h : Param x m (b ++ r ++ a) n y)
    (hh : Hole d b r a) :
    ∃ es fs, splitParams (x ++ (m ++ (b ++ r ++ a) ++ n) ++ y) = es ++ (b ++ r ++ a) :: fs ∧
      splitParams (x ++ (m ++ (b ++ q ++ a) ++ n) ++ y) = es ++ (b ++ q ++ a) :: fs := by
  have hhole : Hole d (x ++ (m ++ b)) r ((a ++ n) ++ y) := by
    simpa using h.hole hh
  obtain ⟨P, Q, hP, hQ⟩ := hhole.replace_piece hr hs hq (by simpa using h.topPiece)
  have hp := trim_exchange htr hr hs h.trimmed
  have hne : b ++ q ++ a ≠ [] := by simp [hs.ne_nil]
  refine ⟨(P.map trim).filter (!·.isEmpty), (Q.map trim).filter (!·.isEmpty), ?_, ?_⟩
  · rw [splitParams_eq, show x ++ (m ++ (b ++ r ++ a) ++ n) ++ y =
      x ++ (m ++ b ++ r ++ (a ++ n)) ++ y by simp, hP,
      show m ++ b ++ r ++ (a ++ n) = m ++ (b ++ r ++ a) ++ n by simp, List.map_append,
      List.map_cons, trim_pad h.blank_m h.blank_n h.trimmed, List.filter_append,
      List.filter_cons_of_pos (by simpa using h.ne_nil)]
  · rw [splitParams_eq, show x ++ (m ++ (b ++ q ++ a) ++ n) ++ y =
      x ++ (m ++ b ++ q ++ (a ++ n)) ++ y by simp, hQ,
      show m ++ b ++ q ++ (a ++ n) = m ++ (b ++ q ++ a) ++ n by simp, List.map_append,
      List.map_cons, trim_pad h.blank_m h.blank_n hp, List.filter_append,
      List.filter_cons_of_pos (by simpa using hne)]

/-- The parameter list of a call changes, and nothing else in the tree of its chain. -/
theorem ChainCall.exchange {expr : Bool} {l x m c n y t name raw : List Char}
    (h : ChainCall expr l x m c n y t name raw) (hraw : raw = b ++ r ++ a) (hn : PlainName name)
    (hh : Hole d b r a) :
    ∃ ls ls' ms ms' ρ ρ', Link.AllAlike (fun _ _ => True) ls ls' ∧
      Link.AllAlike (fun _ _ => True) ms ms' ∧
      Expr.parseAs expr (l ++ (x ++ (m ++ c ++ n) ++ y) ++ t) =
        .chain (ls ++
          .call (String.ofList name) ((splitParams (b ++ r ++ a)).map Expr.parse) ρ :: ms) ∧
      Expr.parseAs expr (l ++ (x ++ (m ++ ((c.takeWhile (· != '(') ++ ['(']) ++ (b ++ q ++ a) ++
          [')']) ++ n) ++ y) ++ t) =
        .chain (ls' ++
          .call (String.ofList name) ((splitParams (b ++ q ++ a)).map Expr.parse) ρ' :: ms') := by
  have h₀ : ChainCall expr [] x m c n y [] name raw := { h with blank_l := rfl, blank_t := rfl }
  have hhole := h₀.hole_inside hraw hn hh
  obtain ⟨hc, hname⟩ := of_splitCall? h.trimmed_call h.split
  have hnm : '(' ∉ c.takeWhile (· != '(') := by
    intro hm
    simpa using List.mem_takeWhile_imp hm
  generalize c.takeWhile (· != '(') = nm at hc hname hhole hnm ⊢
  generalize hc₂ : (nm ++ ['(']) ++ (b ++ q ++ a) ++ [')'] = c₂
  rw [hraw] at hc
  have hhole : Hole (d + 1) (x ++ (m ++ (nm ++ ['(']) ++ b)) r ((a ++ [')'] ++ n) ++ y) := by
    simpa using hhole
  have htc : trim c₂ = c₂ := by
    rw [← hc₂]
    simpa using trim_exchange htr hr hs (b := nm ++ ['('] ++ b) (a := a ++ [')'])
      (by simpa [hc] using h.trimmed_call)
  have htrim : trim (x ++ (m ++ c₂ ++ n) ++ y) = x ++ (m ++ c₂ ++ n) ++ y := by
    rw [← hc₂]
    simpa using trim_exchange htr hr hs (b := x ++ (m ++ (nm ++ ['(']) ++ b))
      (a := (a ++ [')'] ++ n) ++ y) (by simpa [hc] using h.trimmed)
  have hcut : expr = true → splitArithmetic? (x ++ (m ++ c₂ ++ n) ++ y) = none := by
    intro he
    have hu := splitArithmetic?_eq_none_iff.1 (h.uncut he)
    refine splitArithmetic?_eq_none_iff.2 fun op => ?_
    rw [← hc₂]
    simpa using hhole.replace_uncut hr hs hq (by simpa [hc] using hu op)
  have hsplit : splitCall? c₂ = some (name, b ++ q ++ a) := by
    rw [hname, ← hc₂]
    exact splitCall?_eq hnm (by rwa [hc₂])
  have hseg : Segment.ofFragment c₂ = .call c₂ := by
    apply Segment.ofFragment_call htc
    · have hhead : c₂.head? = c.head? := by
        rw [← hc₂, hc]
        cases nm <;> rfl
      rw [hhead]
      exact Segment.head?_of_call h.trimmed_call h.segment
    · simp [← hc₂]
  obtain ⟨P, Q, hP, hQ⟩ := hhole.replace_piece hr hs hq (by simpa [hc] using h.topPiece)
  have hold : fragments (x ++ (m ++ c ++ n) ++ y) = P ++ (m ++ c ++ n) :: Q := by
    rw [fragments_eq, hc]
    simpa using hP
  have hnew : fragments (x ++ (m ++ c₂ ++ n) ++ y) = P ++ (m ++ c₂ ++ n) :: Q := by
    rw [fragments_eq, ← hc₂]
    simpa using hQ
  have hne : x ++ (m ++ c ++ n) ++ y ≠ [] := by simp [hc]
  have hne₂ : x ++ (m ++ c₂ ++ n) ++ y ≠ [] := by simp [← hc₂]
  have hlinks := Link.parse_fragments h.trimmed hne hold
  have hlinks₂ := Link.parse_fragments htrim hne₂ hnew
  rw [Segment.ofFragment_pad h.blank_m h.blank_n h.trimmed_call, Link.read_call h.segment h.split,
    hraw] at hlinks
  rw [Segment.ofFragment_pad h.blank_m h.blank_n htc, Link.read_call hseg hsplit] at hlinks₂
  have hparse := Expr.parseAs_eq (trim_pad h.blank_l h.blank_t h.trimmed) h.uncut
  have hparse₂ := Expr.parseAs_eq (trim_pad h.blank_l h.blank_t htrim) hcut
  rw [hlinks] at hparse
  rw [hlinks₂] at hparse₂
  exact ⟨_, _, _, _, _, _, Link.read_alike _ _ _, Link.read_alike _ _ _, hparse, hparse₂⟩

/-- One argument of a call changes, and nothing else in the tree of its chain. -/
theorem ChainCall.exchange_argument {expr : Bool} {l x m c n y t name raw w m' n' z : List Char}
    (h : ChainCall expr l x m c n y t name raw)
    (hraw : raw = w ++ (m' ++ (b ++ r ++ a) ++ n') ++ z) (hp : Param w m' (b ++ r ++ a) n' z)
    (hn : PlainName name) (hh : Hole d b r a) :
    ∃ ls ls' ms ms' es fs ρ ρ', Link.AllAlike (fun _ _ => True) ls ls' ∧
      Link.AllAlike (fun _ _ => True) ms ms' ∧
      Expr.parseAs expr (l ++ x ++ m ++ (c.takeWhile (· != '(') ++ ['(']) ++ w ++ m' ++
          (b ++ r ++ a) ++ (n' ++ z ++ [')'] ++ n ++ y ++ t)) =
        .chain (ls ++ .call (String.ofList name) (es ++ Expr.parse (b ++ r ++ a) :: fs) ρ :: ms) ∧
      Expr.parseAs expr (l ++ x ++ m ++ (c.takeWhile (· != '(') ++ ['(']) ++ w ++ m' ++
          (b ++ q ++ a) ++ (n' ++ z ++ [')'] ++ n ++ y ++ t)) =
        .chain (ls' ++
          .call (String.ofList name) (es ++ Expr.parse (b ++ q ++ a) :: fs) ρ' :: ms') := by
  have hin : raw = (w ++ m' ++ b) ++ r ++ (a ++ (n' ++ z)) := by simp [hraw]
  obtain ⟨ls, ls', ms, ms', ρ, ρ', hls, hms, hold, hnew⟩ :=
    h.exchange htr hr hs hq hin hn (hp.hole hh)
  obtain ⟨es, fs, hes, hfs⟩ := hp.exchange htr hr hs hq hh
  have hes : splitParams ((w ++ m' ++ b) ++ r ++ (a ++ (n' ++ z))) = es ++ (b ++ r ++ a) :: fs := by
    simpa using hes
  have hfs : splitParams ((w ++ m' ++ b) ++ q ++ (a ++ (n' ++ z))) = es ++ (b ++ q ++ a) :: fs := by
    simpa using hfs
  rw [hes, List.map_append, List.map_cons] at hold
  rw [hfs, List.map_append, List.map_cons] at hnew
  refine ⟨ls, ls', ms, ms', es.map Expr.parse, fs.map Expr.parse, ρ, ρ', hls, hms, ?_, ?_⟩
  · rw [← hold]
    congr 1
    conv_rhs => rw [(of_splitCall? h.trimmed_call h.split).1, hraw]
    simp
  · rw [← hnew]
    congr 1
    simp

end Exchange

/-- `r` is by itself an argument of a call in the text `b ++ r ++ a`. The names are those of the
calls around it, the outermost first. -/
inductive ArgumentSite : Bool → List (List Char) → List Char → List Char → List Char → Prop where

  | here {expr : Bool} {name b r a : List Char} : Level expr [name] b r a →
      ArgumentSite expr [name] b r a

  | level {expr : Bool} {outer names : List (List Char)} {u b r a v : List Char} :
      Level expr outer u (b ++ r ++ a) v → ArgumentSite true names b r a →
      ArgumentSite expr (outer ++ names) (u ++ b) r (a ++ v)

section ArgumentSite

variable {expr : Bool} {names : List (List Char)} {b r a q : List Char} {v : Value}

theorem Hole.alone (r : List Char) : Hole 0 [] r [] where
  depth := rfl
  expects := rfl
  settles := Or.inr ⟨rfl, rfl⟩

theorem ArgumentSite.trim_eq (h : ArgumentSite expr names b r a) : trim r = r := by
  induction h with
  | here h =>
    cases h with
    | argument _ _ hp => exact hp.trimmed
  | level _ _ ih => exact ih

/-- An argument stands between parentheses. -/
theorem ArgumentSite.around (h : ArgumentSite expr names b r a) :
    '(' ∈ b ∧ ')' ∈ a ∧ names ≠ [] := by
  induction h with
  | here h =>
    cases h with
    | argument => simp
  | level _ _ ih =>
    exact ⟨List.mem_append_right _ ih.1, List.mem_append_left _ ih.2.1, by simp [ih.2.2]⟩

theorem ArgumentSite.hole (h : ArgumentSite expr names b r a)
    (hn : ∀ name ∈ names, PlainName name) : Hole names.length b r a := by
  induction h with
  | @here expr name b r a h =>
    have h' : Level expr [name] b ([] ++ r ++ []) a := by simpa using h
    simpa using h'.hole hn (Hole.alone r)
  | level hl _ ih =>
    have hh := hl.hole (fun name h => hn name (List.mem_append_left _ h))
      (ih fun name h => hn name (List.mem_append_right _ h))
    rwa [List.length_append, Nat.add_comm]

/-- An inert literal in the place of an argument changes the tree in this argument only. -/
theorem ArgumentSite.exchange (h : ArgumentSite expr names b r a)
    (hn : ∀ name ∈ names, PlainName name) (hr : r.getLast? = some ')') (hs : v.Spells q)
    (hq : Inert q) :
    Expr.Exchange (.parse r) (.parse q) (.parseAs expr (b ++ r ++ a))
      (.parseAs expr (b ++ q ++ a)) := by
  have htr := h.trim_eq
  induction h with
  | @here expr name b r a h =>
    cases h with
    | argument hc hraw hp =>
      obtain ⟨ls, ls', ms, ms', es, fs, ρ, ρ', hls, hms, hold, hnew⟩ :=
        hc.exchange_argument htr hr hs hq (b := []) (a := []) (by simpa using hraw)
          (by simpa using hp) (hn _ List.mem_cons_self) (Hole.alone r)
      simp only [List.nil_append, List.append_nil] at hold hnew
      rw [hold, hnew]
      exact .here hls hms
  | @level expr outer names u b r a w hl hsite ih =>
    have hh := hsite.hole fun name h => hn name (List.mem_append_right _ h)
    have ih := ih (fun name h => hn name (List.mem_append_right _ h)) hr htr
    have hold : u ++ b ++ r ++ (a ++ w) = u ++ (b ++ r ++ a) ++ w := by simp
    have hnew : u ++ b ++ q ++ (a ++ w) = u ++ (b ++ q ++ a) ++ w := by simp
    rw [hold, hnew]
    generalize hp : b ++ r ++ a = p at hl ih
    cases hl with
    | operand h =>
      subst hp
      obtain ⟨es, fs, hold, hnew⟩ := h.exchange htr hr hs hq hh
      rw [Expr.parseAs, Expr.parseAs, hold, hnew]
      exact .operand ih
    | argument hc hraw hp' =>
      subst hp
      obtain ⟨ls, ls', ms, ms', es, fs, ρ, ρ', hls, hms, hold, hnew⟩ :=
        hc.exchange_argument htr hr hs hq hraw hp' (hn _ (by simp)) hh
      rw [hold, hnew]
      exact .argument hls hms ih

end ArgumentSite

end TileScript
