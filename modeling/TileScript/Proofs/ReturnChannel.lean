import TileScript.Proofs.Data
import TileScript.Proofs.Termination
import TileScript.System.Builtin

/-! # The return channel

What functions hand back, values and failures alike, is text. Every value is read back from its
literal, every failure from its code, and no literal is taken for a failure. So the value that a
called function ends with is the one that its caller gets.
-/

namespace TileScript

open Text

namespace Sentinel

variable {data : String} (code : String) (argument : List Char)

/-- A code reaches up to the first space, and all the rest is its argument. -/
theorem decode?_argument (hd : data.toList = "!E".toList ++ (code.toList ++ ' ' :: argument))
    (hc : ' ' ∉ code.toList) : decode? data = some (ofCode code argument) := by
  rw [decode?, afterPrefix?_eq_some.2 hd, Option.map_some, splitOnce?_eq hc]
  simp only [Option.getD_some, String.ofList_toList]

theorem decode?_code (hd : data.toList = "!E".toList ++ code.toList) (hc : ' ' ∉ code.toList) :
    decode? data = some (ofCode code []) := by
  have hn : splitOnce? ' ' code.toList = none := by
    rw [Option.eq_none_iff_forall_ne_some]
    rintro ⟨l, r⟩ hs
    rw [(of_splitOnce? hs).1] at hc
    simp at hc
  rw [decode?, afterPrefix?_eq_some.2 hd, Option.map_some, hn]
  simp only [Option.getD_none, String.ofList_toList]

theorem readNat64?_toNat (n : UInt64) :
    readNat64? (trim (Nat.toDigits 10 n.toNat)) = some n.toNat := by
  have hn : 0 ≤ (n.toNat : Int) ∧ (n.toNat : Int) < 0x10000000000000000 := by
    have := n.toNat_lt
    omega
  rw [Value.trim_toDigits, readNat64?, Value.readNat?_toDigits, Option.bind_some, toNat64?,
    if_pos hn, Int.toNat_natCast]

/-- Every failure is read back from its code. -/
theorem decode?_encode (s : Sentinel) : decode? s.encode = some s := by
  cases s with
  | unknownFunction => exact decode?_code "1000" rfl (by decide)
  | nullReference => exact decode?_code "1002" rfl (by decide)
  | notImplemented => exact decode?_code "9999" rfl (by decide)
  | wrongArity n =>
    rw [decode?_argument "1001" (Nat.toDigits 10 n.toNat) (by simp [encode]) (by decide)]
    simp [ofCode, readNat64?_toNat]
  | resource r =>
    rw [decode?_argument "1003" r.toList (by simp [encode]) (by decide)]
    simp [ofCode]
  | custom r =>
    rw [decode?_argument "9000" r.toList (by simp [encode]) (by decide)]
    simp [ofCode]

/-- No literal begins like a failure. -/
theorem decode?_literal (v : Value) : decode? v.literal = none := by
  obtain ⟨c, hc, h⟩ := v.literal_spells.head?_eq
  rw [decode?, Option.map_eq_none_iff, afterPrefix?_eq_none]
  intro rest hl
  rw [hl] at hc
  obtain rfl : '!' = c := Option.some.inj hc
  revert h
  decide

end Sentinel

namespace Value

theorem ofLiteral?_literal (v : Value) : ofLiteral? v.literal.toList = some v :=
  v.literal_spells.ofLiteral?_eq

theorem ofData_literal (v : Value) : ofData v.literal = v := by
  rw [ofData, ofLiteral?_literal, Option.getD_some]

theorem literal_injective : Function.Injective literal :=
  Function.LeftInverse.injective ofData_literal

end Value

/-- Values are compared by their literals, which tells them apart. -/
theorem Comparison.apply_eq (a b : Value) :
    eq.apply a b = .ok (decide (a = b)) ∧ ne.apply a b = .ok (decide (a ≠ b)) := by
  have hb : (a.literal == b.literal) = decide (a = b) := by
    rw [beq_eq_decide]
    exact decide_eq_decide.2 Value.literal_injective.eq_iff
  simp [apply, bne, hb]

namespace SystemTable

variable {name : String} {b : Builtin} {l : List (String × Builtin)}

theorem getElem?_foldl_of_not_mem (h : name ∉ l.map Prod.fst) (t : SystemTable) :
    (l.foldl (fun t (name, f) => t.insert name f.toFunction) t)[name]? = t[name]? := by
  induction l generalizing t with
  | nil => rfl
  | cons p l ih =>
    obtain ⟨hp, hl⟩ : name ≠ p.1 ∧ name ∉ l.map Prod.fst := by
      simpa only [List.map_cons, List.mem_cons, not_or] using h
    rw [List.foldl_cons, ih hl, Std.ExtTreeMap.getElem?_insert, if_neg]
    rw [Std.LawfulEqCmp.compare_eq_iff_eq]
    exact hp.symm

theorem getElem?_foldl_of_mem (hn : (l.map Prod.fst).Nodup) (h : (name, b) ∈ l)
    (t : SystemTable) :
    (l.foldl (fun t (name, f) => t.insert name f.toFunction) t)[name]? = some b.toFunction := by
  induction l generalizing t with
  | nil => cases h
  | cons p l ih =>
    obtain ⟨hp, hn⟩ := List.nodup_cons.1 hn
    rcases List.mem_cons.1 h with rfl | h
    · rw [List.foldl_cons, getElem?_foldl_of_not_mem hp, Std.ExtTreeMap.getElem?_insert_self]
    · exact ih hn h _

/-- Each built-in function is found by its name. -/
theorem builtins_of_mem (h : (name, b) ∈ Builtin.all) : builtins[name]? = some b.toFunction :=
  getElem?_foldl_of_mem (by decide) h _

theorem builtins_exit : builtins["exit"]? = some Builtin.exit.toFunction :=
  builtins_of_mem (by simp [Builtin.all])

end SystemTable

namespace Scope

variable {s : Scope} {v : Value} {e : Expr} {σ σ' : EvalState}

theorem invoke_exit (hs : s.env.systems = .builtins) (v : Value) (resume : Option ResumePoint)
    (σ : EvalState) :
    (s.invoke none .none "exit" [v] resume).run σ = .error (.exit (some v)) σ := by
  simp [invoke, functionCall?, hs, SystemTable.builtins_exit, systemCall, Eval.world,
    Builtin.toFunction, Builtin.exit, Sentinel.decode?_literal, Value.ofData_literal]
  rfl

theorem evalChain_exit (hs : s.env.systems = .builtins) {wanted : Bool} {reach : List Char}
    {rest : List Link} (he : (s.eval e).run σ = .ok v σ') :
    (s.evalChain wanted (.call "exit" [e] reach :: rest)).run σ = .error (.exit (some v)) σ' := by
  rw [evalChain, evalLinks, evalArguments, evalArguments]
  · simp only [EStateM.run_bind, he, EStateM.run_pure, invoke_exit hs]
  · simp

end Scope

namespace Fiber

theorem execute_exit {s : Scope} {f : Fiber} {v : Value} {e : Expr} {chain reach : List Char}
    {rest : List Link} {σ σ' : EvalState} (hs : s.env.systems = .builtins)
    (hp : Link.parse chain = .call "exit" [e] reach :: rest) (he : (s.eval e).run σ = .ok v σ') :
    (execute s f (.bare chain)).run σ = .error (.exit (some v)) σ' := by
  rw [execute, hp, EStateM.run_bind, Scope.evalChain_exit hs he]

/-- An activation comes to a line that begins with `exit(e)`, where `e` has the value `v` and leaves
the world `w'`. -/
inductive Exits (env : Environment) (forced : Bool) (f : Fiber) (w : World) (v : Value) :
    World → Prop where

  | line {n : Nat} {l : Loop} {g : Fiber} {c : Cursor} {line chain reach : List Char} {e : Expr}
      {rest : List Link} {σ : EvalState} :
      f.byLines env env.limits.tokenBudget forced w n = .going l →
      l.fiber.nextStatement l.coming l.evaluated = (g, .found c line (.bare chain)) →
      0 < l.budget → Link.parse chain = .call "exit" [e] reach :: rest →
      ((g.scope env line).eval e).run { world := l.world } = .ok v σ →
      Exits env forced f w v σ.world

variable {env : Environment} {forced : Bool} {f : Fiber} {w w' : World} {v : Value}

theorem Exits.activate (h : f.Exits env forced w v w') (henv : env.systems = .builtins)
    (hf : f.Sound) :
    ∃ t g, f.activate env forced w = (.terminated t, g, w') ∧ t.ending = .exited (some v) := by
  obtain ⟨hl, hn, hb, hp, he⟩ := h
  next n l g c line chain reach e rest σ =>
  obtain ⟨budget, hb⟩ := Nat.exists_eq_succ_of_ne_zero (Nat.ne_of_gt hb)
  have hx : (execute ({ g with cursor := c }.scope env line) { g with cursor := c }
      (.bare chain)).run { world := l.world } = .error (.exit (some v)) σ :=
    execute_exit henv hp he
  have hr : (l.result env).2 =
      { g with cursor := c }.terminate (.exited (some v)) none σ.world := by
    rw [Loop.result_eq, runTraced, hn, hb]
    simp only [hx]
  exact ⟨_, _, (hf.inRange_of_going hl).2.trans hr, rfl⟩

end Fiber

namespace Scheduler

variable {env : Environment} {s : Scheduler} {w w' : World}

/-- The value that a child ends with is what its caller goes on with. -/
theorem step_exits (henv : env.systems = .builtins) (hs : Linked s) {c p : FiberId}
    {child caller : Fiber} {forced : Bool} {v : Value} (hc : s.fibers[c]? = some child)
    (hp : child.parent = some p) (hf : s.fibers[p]? = some caller)
    (he : child.Exits env forced w v w') :
    s.step env w ⟨c, forced⟩ =
      ({ s with fibers := (s.fibers.erase c).insert p (caller.deliver (.value v)) }, w',
        [⟨p, true⟩]) := by
  have hpl := hs.placed hc
  have hne : c ≠ p := Nat.ne_of_gt (hpl.parent_lt hp)
  have hwait : caller.awaiting = some c := hs.caller hc hp hf
  obtain ⟨t, g, ha, ht⟩ := he.activate henv hpl.toSound
  have hlinks := Fiber.activate_activated hpl.toSound env forced w
  rw [ha] at hlinks
  obtain ⟨hid, hparent⟩ : t.fiber = c ∧ t.parent = some p := by
    cases hlinks with
    | terminated _ hid hparent => exact ⟨hid.trans hpl.id_eq, hparent.trans hp⟩
  unfold step
  simp only [hc, ha]
  simp [finish, deliver, ht, hid, hparent, hne, hf, hwait]

/-- Values and failures are told apart and read back exactly as they were, and values are equal
exactly if `==` says so; and wherever a scheduler occurs, a child that comes to `exit(e)` delivers
the value of `e` to its caller, which goes on at once, and no failure. -/
theorem return_channel_lossless :
    (∀ v : Value, Value.ofLiteral? v.literal.toList = some v ∧ Value.ofData v.literal = v ∧
      Sentinel.decode? v.literal = none) ∧
    (∀ a b : Value, Comparison.eq.apply a b = .ok (decide (a = b)) ∧
      Comparison.ne.apply a b = .ok (decide (a ≠ b))) ∧
    (∀ f : Sentinel, Sentinel.decode? f.encode = some f) ∧
    ∀ {env : Environment} {s : Scheduler} {w w' : World} {c p : FiberId} {child caller : Fiber}
      {forced : Bool} {v : Value}, env.systems = .builtins → Occurs s → s.fibers[c]? = some child →
      child.parent = some p → s.fibers[p]? = some caller → child.Exits env forced w v w' →
      s.step env w ⟨c, forced⟩ =
        ({ s with fibers := (s.fibers.erase c).insert p (caller.deliver (.value v)) }, w',
          [⟨p, true⟩]) := by
  refine ⟨fun v => ⟨v.ofLiteral?_literal, v.ofData_literal, Sentinel.decode?_literal v⟩,
    Comparison.apply_eq, Sentinel.decode?_encode, ?_⟩
  intro env s w w' c p child caller forced v henv hs hc hp hf he
  exact step_exits henv hs.linked hc hp hf he

section Example

/-- The item's function ends with a text that reads like a failure. -/
def refusalEnvironment : Environment :=
  { keyEnvironment with
    systems := .builtins
    source := { list := fun _ => .ok ["key.turn"], load? := fun _ _ => some "exit(\"!E1002\")" } }

/-- The scheduler when the function has been called. -/
def refusalCalled : Scheduler := (keyStart.step refusalEnvironment keyWorld ⟨0, false⟩).1

/-- The fiber of the called function. -/
def refusal : Fiber :=
  ({ Fiber.start 1 ⟨0⟩ 0 "exit(\"!E1002\")" with parent := some 0 }.seed "_entity"
    (.entity ⟨0⟩)).seed "_item" (.item ⟨0⟩)

theorem refusalCalled_occurs : Occurs refusalCalled := by
  have hk : keyStart.fibers.keys = [0] := by decide +kernel
  have ha : attach {} keyWorld ⟨0⟩ "var x = $Item[0].turn()" 0 = .ok (0, keyStart) := rfl
  have hw : AtWork refusalEnvironment keyStart keyWorld [0] [] keyStart keyWorld := hk ▸ .enter
  exact .within (Reachable.empty.attach ha) hw.next.step

theorem refusal_exits :
    refusal.Exits refusalEnvironment true keyWorld (.text "!E1002") keyWorld := by
  obtain ⟨e, he, hact⟩ : ∃ e, keyWorld.entity? refusal.entity = some e ∧ e.canAct = true := by
    rw [← Option.map_eq_some_iff]
    decide +kernel
  have hl : refusal.byLines refusalEnvironment 10 true keyWorld 0 = .going {
      budget := 10, evaluated := true, world := keyWorld
      fiber := { refusal with lastTick := some 0 } } := by
    simp only [Fiber.byLines, Fiber.enter, he, hact]
    rfl
  have hp : Link.parse "exit(\"!E1002\")".toList = [.call "exit"
      [.chain [.word "\"!E1002\"".toList]] "exit(\"!E1002\")".toList] := by
    cbv
  refine .line (σ := { world := keyWorld }) hl rfl (by decide) hp ?_
  exact Scope.eval_literal _ (Value.literal_spells (.text "!E1002")) rfl

/-- The caller gets the text, and nothing fails. -/
theorem return_channel_lossless_refusal :
    refusal.Exits refusalEnvironment true keyWorld (.text "!E1002") keyWorld ∧
    (refusalCalled.step refusalEnvironment keyWorld ⟨1, true⟩).2 = (keyWorld, [⟨0, true⟩]) ∧
    ((refusalCalled.step refusalEnvironment keyWorld ⟨1, true⟩).1.fibers[0]?).map (·.received) =
      some (some (.value (.text "!E1002"))) := by
  have hc : refusalCalled.fibers[1]? = some refusal := by decide +kernel
  obtain ⟨caller, hf⟩ : ∃ f, refusalCalled.fibers[0]? = some f := by
    rw [← Option.isSome_iff_exists]
    decide +kernel
  have hstep := return_channel_lossless.2.2.2 rfl refusalCalled_occurs hc rfl hf refusal_exits
  rw [hstep]
  exact ⟨refusal_exits, rfl, by simp [Fiber.deliver]⟩

end Example

end Scheduler

end TileScript
