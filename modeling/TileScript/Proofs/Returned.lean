import TileScript.Proofs.Nested
import TileScript.System.Builtin

/-! # Returned values

Which values are only data on every line that waits for one in an argument of a call: those with an
inert literal, and on `if` lines those whose literal has no space besides.
-/

namespace TileScript

open Text Chain

section Lines

variable {expr : Bool} {raw u m p n w b a : List Char}

theorem applied_chainCall (expr : Bool)
    (hc : Uncut Cutter.chain.cuts OperandScan.step {} (applied raw))
    (ha : splitArithmetic? (applied raw) = none) :
    ChainCall expr [] [] [] (applied raw) [] [] [] ['f'] raw where
  blank_l := rfl
  blank_m := rfl
  blank_n := rfl
  blank_t := rfl
  trimmed := by simpa using trim_applied raw
  uncut := fun _ => by simpa using ha
  piece := by
    refine ⟨?_, Or.inl rfl, Or.inl rfl⟩
    simpa using (uncut_map Cutter.cuts_chain nesting_step).1 hc
  trimmed_call := trim_applied raw
  segment := Segment.ofFragment_call (trim_applied raw) (by simp [applied]) (by simp [applied])
  split := splitCall?_eq (by decide) (trim_applied raw)

theorem applied_level (hc : Uncut Cutter.chain.cuts OperandScan.step {} (applied raw))
    (ha : splitArithmetic? (applied raw) = none) (hraw : raw = u ++ (m ++ p ++ n) ++ w)
    (hp : Param u m p n w) : Level expr [['f']] ('f' :: '(' :: (u ++ m)) p (n ++ w ++ [')']) := by
  have h := Level.argument (applied_chainCall expr hc ha) hraw hp
  simpa [applied] using h

theorem nested_argument (expr : Bool) (n : Nat) :
    ArgumentSite expr (List.replicate (n + 1) ['f']) (opening (n + 1)) turn (closing (n + 1)) := by
  have hlevel (expr : Bool) (n : Nat) :
      Level expr [['f']] ('f' :: '(' :: []) (nested n turn) [')'] := by
    have ha : splitArithmetic? (applied (nested n turn)) = none := by
      rw [← nested_succ, splitArithmetic?_turn]
    have hp : Param [] [] (nested n turn) [] [] := {
      blank_m := rfl
      blank_n := rfl
      piece := by
        refine ⟨?_, Or.inl rfl, Or.inl rfl⟩
        simpa using (uncut_map Cutter.cuts_params nesting_step).1
          (uncut_nested.2 (uncut_turn .params (by simp)))
      trimmed := trim_nested_turn n
      ne_nil := by simp [nested, turn_ne_nil] }
    simpa using applied_level (applied_turn_uncut n) ha (by simp) hp
  induction n generalizing expr with
  | zero => exact .here (by simpa [nested, opening, closing] using hlevel expr 0)
  | succ n ih =>
    rw [show closing (n + 1 + 1) = closing (n + 1) ++ [')'] from List.replicate_succ']
    exact .level (hlevel expr (n + 1)) (ih true)

end Lines

section Waiting

variable {s : Scope} {f : Fiber} {σ σ' : EvalState} {q : CallRequest} {x y b a : List Char}

/-- The awaited call occurs once. -/
theorem turn_unique (hx : 'k' ∉ x) (hy : 'k' ∉ y) (h : x ++ turn ++ y = b ++ turn ++ a) :
    b = x ∧ a = y := by
  have ht : turn = 'k' :: ".turn()".toList := by decide
  rw [ht, List.append_assoc, List.append_assoc, List.cons_append, List.cons_append] at h
  have hm : 'k' ∉ ".turn()".toList ++ y := by
    rw [List.mem_append, not_or]
    exact ⟨by decide, hy⟩
  obtain ⟨rfl, -, ha⟩ := (List.append_cons_inj_of_notMem hx hm).1 h
  exact ⟨rfl, (List.append_cancel_left ha).symm⟩

theorem Suspends.first_turn (h : Suspends s f σ q σ' b turn a) (hb : 'k' ∉ b) (ha : 'k' ∉ a) :
    ResumePoint.First ⟨s.line, turn⟩ b a := by
  obtain ⟨b₁, a₁, hf⟩ := h.exists_first (p := ⟨s.line, turn⟩) rfl
  obtain ⟨rfl, rfl⟩ := turn_unique hb ha (h.line.symm.trans hf.line)
  exact hf

theorem Scope.evalChain_argument {i : Interrupt} {e : Expr} (h : (s.eval e).run σ = .error i σ')
    (wanted : Bool) (name : String) (es : List Expr) (ρ : List Char) (ls : List Link) :
    (s.evalChain wanted (.call name (e :: es) ρ :: ls)).run σ = .error i σ' := by
  rw [evalChain, evalLinks, evalArguments]
  · simp only [EStateM.run_bind, h]
  · simp

theorem Scope.invoke_call {target : Option Value} {name : String} {params : List Value}
    {resume : Option ResumePoint}
    (h : s.functionCall? σ.world target name params resume = some (.ok q)) (accessor : Accessor) :
    (s.invoke target accessor name params resume).run σ = .error (.call q) σ := by
  rw [invoke, EStateM.run_bind, Eval.run_world]
  simp only [h]
  rfl

theorem keyScope_eval_turn (line : String) : ∃ q σ',
    ((keyScope line).eval (.parse turn)).run { world := keyWorld } = .error (.call q) σ' ∧
      q.resume = some ⟨line.toList, turn⟩ := by
  have hroot : (keyScope line).resolveRoot keyWorld ['k'] =
      .ok (some (.item ⟨0⟩), .target (.item ⟨0⟩)) := by
    change (keyScope "").resolveRoot keyWorld ['k'] = _
    decide +kernel
  have hcall : ((keyScope line).functionCall? keyWorld (some (.item ⟨0⟩)) "turn" [] none).map
      (·.toOption.isSome) = some true := by
    change ((keyScope "").functionCall? keyWorld (some (.item ⟨0⟩)) "turn" [] none).map _ = _
    decide +kernel
  obtain ⟨x, hx, hok⟩ := Option.map_eq_some_iff.1 hcall
  cases x with
  | error e => cases hok
  | ok q =>
    refine ⟨{ q with resume := some ⟨line.toList, turn⟩ }, { world := keyWorld }, ?_, rfl⟩
    rw [Expr.parse_turn, Scope.eval, Scope.evalChain]
    change (Eval.ofExcept ((keyScope line).resolveRoot keyWorld ['k']) >>= fun x =>
      (keyScope line).evalLinks true x.1 x.2 [.call "turn" [] turn]).run _ = _
    rw [hroot, Eval.ofExcept, pure_bind, Scope.evalLinks, Scope.evalArguments, pure_bind]
    have hq := (keyScope line).functionCall?_resume keyWorld (some (.item ⟨0⟩)) "turn" []
      (some ⟨line.toList, turn⟩)
    rw [hx] at hq
    have hi := Scope.invoke_call (σ := { world := keyWorld }) hq (.target (.item ⟨0⟩))
    rw [EStateM.run_bind]
    exact hi ▸ rfl

theorem opening_noKey {n : Nat} : 'k' ∉ opening n := by
  intro h
  cases mem_opening h with
  | inl h => cases h
  | inr h => cases h

theorem closing_noKey {n : Nat} : 'k' ∉ closing n := by
  intro h
  cases (List.mem_replicate.1 h).2

theorem nested_suspends (n : Nat) :
    ∃ q σ', Suspends (keyScope (String.ofList (nested (n + 1) turn))) keyFiber
      { world := keyWorld } q σ' (opening (n + 1)) turn (closing (n + 1)) := by
  generalize hline : String.ofList (nested (n + 1) turn) = line
  have hline : (keyScope line).line = nested (n + 1) turn := by
    rw [← hline]
    exact String.toList_ofList
  obtain ⟨q, σ', hq, hr⟩ := keyScope_eval_turn line
  have heval (n : Nat) :
      ((keyScope line).eval (.parse (nested n turn))).run { world := keyWorld } =
        .error (.call q) σ' := by
    induction n with
    | zero => simpa [nested, opening, closing] using hq
    | succ n ih =>
      have hn : splitArithmetic? (trim (nested (n + 1) turn)) = none := by
        rw [trim_nested_turn, splitArithmetic?_turn]
      rw [Expr.parse_chain hn, trim_nested_turn, Link.parse_turn, Scope.eval]
      exact Scope.evalChain_argument ih ..
  have hn : splitAssignment? (applied (nested n turn)) = none := by
    rw [← nested_succ]
    exact nested_turn_unassigned _
  have hx : (Fiber.execute (keyScope line) keyFiber (Statement.ofLine (keyScope line).line)).run
      { world := keyWorld } = .error (.call q) σ' := by
    rw [hline, nested_succ, Statement.ofLine_applied hn, ← nested_succ, Fiber.execute,
      Link.parse_turn, EStateM.run_bind, Scope.evalChain_argument (heval n)]
  obtain ⟨-, b, a, hs⟩ := exists_suspends hx hr
  obtain ⟨rfl, rfl⟩ := turn_unique opening_noKey closing_noKey (hline.symm.trans hs.line)
  exact ⟨q, σ', hs⟩

end Waiting

/-- The line of a scope stops for the chain `r` between `b` and `a`, which is by itself an argument
of other calls and the first text on the line that reads so. -/
structure Awaits (s : Scope) (f : Fiber) (σ : EvalState) (b r a : List Char) : Prop where
  suspends : ∃ q σ', Suspends s f σ q σ' b r a
  argument : ∃ names, LineArgument names b r a ∧ ∀ name ∈ names, PlainName name
  first : ResumePoint.First ⟨s.line, r⟩ b a

section Awaits

variable {s : Scope} {f : Fiber} {σ : EvalState} {b r a : List Char} {v : Value}

theorem Awaits.onlyData (h : Awaits s f σ b r a) (hv : Inert v.literal.toList)
    (hspace : (Statement.ofLine s.line).kind = .branch → ' ' ∉ v.literal.toList) :
    OnlyData v b r a := by
  obtain ⟨q, σ', hs⟩ := h.suspends
  obtain ⟨names, ha, hn⟩ := h.argument
  rw [hs.line] at hspace
  obtain ⟨hk, hex⟩ := ha.exchange hn hs.getLast?_eq v.literal_spells hv hspace
  exact ⟨hk, hex⟩

theorem plainName_f {n : Nat} : ∀ name ∈ List.replicate n ['f'], PlainName name := by
  intro name hn
  obtain ⟨-, rfl⟩ := List.mem_replicate.1 hn
  rfl

theorem LineArgument.applied {names : List (List Char)} {raw : List Char}
    (h : ArgumentSite false names b r a) (ht : b ++ r ++ a = TileScript.applied raw)
    (hn : splitAssignment? (TileScript.applied raw) = none) : LineArgument names b r a := by
  have hp : LinePart false [] (b ++ r ++ a) [] := by
    rw [ht]
    exact .bare rfl rfl (trim_applied raw) (Statement.ordinary_applied raw) hn
  simpa using LineArgument.part hp h

theorem nested_awaits (n : Nat) :
    Awaits (keyScope (String.ofList (nested (n + 1) turn))) keyFiber { world := keyWorld }
      (opening (n + 1)) turn (closing (n + 1)) := by
  have hn : splitAssignment? (applied (nested n turn)) = none := by
    rw [← nested_succ]
    exact nested_turn_unassigned _
  obtain ⟨q, σ', hs⟩ := nested_suspends n
  exact {
    suspends := ⟨q, σ', hs⟩
    argument := ⟨_, .applied (nested_argument false n) (nested_succ n turn) hn, plainName_f⟩
    first := hs.first_turn opening_noKey closing_noKey }

theorem turn_param {y : List Char} (hy : y = [] ∨ ∃ z, y = ',' :: z) : Param [] [] turn [] y where
  blank_m := rfl
  blank_n := rfl
  piece := by
    refine ⟨?_, Or.inl rfl, hy.imp_right fun ⟨z, hz⟩ => ⟨',', z, hz, by decide +kernel⟩⟩
    simpa using
      (uncut_map Cutter.cuts_params nesting_step).1 (uncut_turn .params (d := 0) (by simp))
  trimmed := trim_turn
  ne_nil := turn_ne_nil

theorem beside_awaits :
    Awaits (keyScope "f(k.turn(), 0)") keyFiber { world := keyWorld } "f(".toList turn
      ", 0)".toList := by
  have hu : Uncut Cutter.chain.cuts OperandScan.step {} (applied (turn ++ ", 0".toList)) :=
    uncut_of_length_lt (by decide +kernel)
  have hn : splitAssignment? (applied (turn ++ ", 0".toList)) = none := by decide +kernel
  have hl : Level false [['f']] "f(".toList turn ", 0)".toList :=
    applied_level hu (by decide +kernel) rfl (turn_param (Or.inr ⟨" 0".toList, rfl⟩))
  obtain ⟨q, σ', hs⟩ := suspends_of_stop? (s := keyScope "f(k.turn(), 0)") (f := keyFiber)
    (σ := { world := keyWorld }) (b := "f(".toList) (r := turn) (a := ", 0)".toList)
    (by decide +kernel) (by decide +kernel) (by decide +kernel)
  exact {
    suspends := ⟨q, σ', hs⟩
    argument := ⟨_, .applied (.here hl) rfl hn, plainName_f (n := 1)⟩
    first := hs.first_turn (by decide) (by decide) }

end Awaits

/-- A value is only data on every line that waits for it in an argument exactly if its literal is
inert, as it is unless the value is a text with quotes inside. The resumed line then has the literal
as this argument, which evaluates to the value, and all it calls is written on the original line:
what else a scope knows makes no difference. -/
theorem returned_value_is_data (v : Value) :
    (Inert v.literal.toList ↔ ∀ {s : Scope} {f : Fiber} {σ : EvalState} {b r a : List Char},
      Awaits s f σ b r a →
      ((Statement.ofLine s.line).kind = .branch → ' ' ∉ v.literal.toList) → OnlyData v b r a) ∧
    ((∀ t, v = .text t → '"' ∉ t.toList) → Inert v.literal.toList) ∧
    (∀ {s : Scope} {f : Fiber} {σ : EvalState} {b r a : List Char}, Awaits s f σ b r a →
      replaceFirst? r v.literal.toList s.line = some (b ++ v.literal.toList ++ a)) ∧
    (∀ (s : Scope) {σ : EvalState}, Scope.valueExists σ.world v = true →
      (s.eval (.chain [.word v.literal.toList])).run σ = .ok v σ) ∧
    ∀ {b r a : List Char}, OnlyData v b r a →
      (Expr.callsIn (Statement.ofLine (b ++ v.literal.toList ++ a)).exprs).Sublist
        (Expr.callsIn (Statement.ofLine (b ++ r ++ a)).exprs) ∧
      ∀ {s s' : Scope} (f : Fiber),
        s.AgreesOn s' (Expr.callsIn (Statement.ofLine (b ++ r ++ a)).exprs) →
        Fiber.execute s f (Statement.ofLine (b ++ v.literal.toList ++ a)) =
          Fiber.execute s' f (Statement.ofLine (b ++ v.literal.toList ++ a)) := by
  refine ⟨⟨fun hv _ _ _ _ _ _ h => h.onlyData hv, fun h => ?_⟩, fun hv => (v.literal_inert hv).1,
    fun h => h.first.replace _, fun s _ he => s.eval_literal v.literal_spells he,
    fun h => ⟨h.calls, fun f ha => h.execute_eq ha f⟩⟩
  have hbare (n : Nat) :
      (Statement.ofLine (keyScope (String.ofList (nested (n + 1) turn))).line).kind ≠ .branch := by
    have hn : splitAssignment? (applied (nested n turn)) = none := by
      rw [← nested_succ]
      exact nested_turn_unassigned _
    have hl : (keyScope (String.ofList (nested (n + 1) turn))).line = applied (nested n turn) := by
      rw [← nested_succ]
      exact String.toList_ofList
    rw [hl, Statement.ofLine_applied hn]
    simp [Statement.kind]
  refine OnlyData.inert (fun n => h (nested_awaits n) fun hk => absurd hk (hbare n))
    (h beside_awaits fun hk => ?_)
  exact absurd hk (by decide +kernel)

theorem returned_value_is_data_int : OnlyData (.int 5) "f(".toList turn ", 0)".toList := by
  obtain ⟨hdata, hinert, -⟩ := returned_value_is_data (.int 5)
  exact hdata.1 (hinert fun t ht => by cases ht) beside_awaits fun _ => by decide +kernel

section Injection

/-- A line of a fiber on the entity with the item `k`, with the built-in functions. -/
def builtinScope (line : String) (vars : Std.ExtTreeMap String Value) : Scope where
  env := { keyEnvironment with systems := .builtins }
  entity := ⟨0⟩
  authority := 0
  vars
  line := line.toList

/-- A text with quotes inside. -/
def injected : Value := .text "a\", log(\"injected\"), \"b"

/-- The value something evaluates to or ends its script with, if it does. -/
def outcome? : EStateM.Result Interrupt EvalState Value → Option Value
  | .ok v _ => some v
  | .error (.exit v) _ => v
  | _ => none

/-- What the entity has logged when an evaluation is over. -/
def logged {α : Type} : EStateM.Result Interrupt EvalState α → Option (List String)
  | .ok _ σ => (σ.world.entity? ⟨0⟩).map (·.log)
  | .error _ σ => (σ.world.entity? ⟨0⟩).map (·.log)

theorem log_awaits :
    Awaits (builtinScope "log(k.turn())" {("k", .item ⟨0⟩)}) keyFiber { world := keyWorld }
      "log(".toList turn ")".toList := by
  have hu : Uncut Cutter.chain.cuts OperandScan.step {} "log(k.turn())".toList :=
    uncut_of_length_lt (by decide +kernel)
  have hc : ChainCall false [] [] [] "log(k.turn())".toList [] [] [] "log".toList turn := {
    blank_l := rfl
    blank_m := rfl
    blank_n := rfl
    blank_t := rfl
    trimmed := by decide +kernel
    uncut := fun h => by cases h
    piece := ⟨(uncut_map Cutter.cuts_chain nesting_step).1 hu, Or.inl rfl, Or.inl rfl⟩
    trimmed_call := by decide +kernel
    segment := by decide +kernel
    split := by decide +kernel }
  have ho : Statement.Ordinary "log(k.turn())".toList := {
    ne_nil := by decide
    not_comment := by decide
    not_close := by decide
    not_otherwise := by decide
    not_declare := fun d hd => by cases hd
    not_if := by decide
    not_branch := fun d hd => by cases hd }
  have hl : LinePart false [] "log(k.turn())".toList [] :=
    .bare rfl rfl (by decide +kernel) ho (by decide +kernel)
  obtain ⟨q, σ', hs⟩ := suspends_of_stop?
    (s := builtinScope "log(k.turn())" {("k", .item ⟨0⟩)}) (f := keyFiber)
    (σ := { world := keyWorld }) (b := "log(".toList) (r := turn) (a := ")".toList)
    (by decide +kernel) (by decide +kernel) (by decide +kernel)
  exact {
    suspends := ⟨q, σ', hs⟩
    argument := ⟨["log".toList], .part hl (.here (.argument hc rfl (turn_param (Or.inl rfl)))),
      by simp [PlainName, Nesting.isFlat]⟩
    first := hs.first_turn (by decide) (by decide) }

/-- A script can write a text whose quotes end its literal early, and end with it. In its place the
line that waits for it has three arguments, one of them a call that was not written there and that
is made. -/
theorem returned_text_is_called :
    outcome? (((builtinScope "" {}).eval (.parse injected.literal.toList)).run
      { world := keyWorld }) = some injected ∧
    outcome? (((builtinScope "exit(x)" {("x", injected)}).eval (.parse "exit(x)".toList)).run
      { world := keyWorld }) = some injected ∧
    Awaits (builtinScope "log(k.turn())" {("k", .item ⟨0⟩)}) keyFiber { world := keyWorld }
      "log(".toList turn ")".toList ∧
    logged ((Fiber.execute (builtinScope "log(\"a\", log(\"injected\"), \"b\")" {}) keyFiber
      (Statement.ofLine ("log(".toList ++ injected.literal.toList ++ ")".toList))).run
      { world := keyWorld }) = some ["injected"] ∧
    ¬ OnlyData injected "log(".toList turn ")".toList := by
  refine ⟨?_, ?_, ?_, ?_, ?_⟩
  · decide +kernel
  · decide +kernel
  · exact log_awaits
  · decide +kernel
  · intro h
    have hcalls := h.calls
    revert hcalls
    decide +kernel

end Injection

end TileScript
