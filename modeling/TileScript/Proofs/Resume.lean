import TileScript.Proofs.Activation
import TileScript.Proofs.Literal
import TileScript.Proofs.Occurrence

/-! # Resuming a line

A line that waits for a value goes on with the first occurrence of the awaited chain replaced by the
literal of the value. That is the chain that was evaluated if nothing before it on the line reads
the same.
-/

namespace TileScript

open Text

/-- The first occurrence of a text is the one that is replaced. -/
theorem Text.replaceFirst?_eq {old b a : List Char} (hold : old ≠ []) :
    ∃ b₁ a₁, b ++ old ++ a = b₁ ++ old ++ a₁ ∧
      (∀ new, replaceFirst? old new (b ++ old ++ a) = some (b₁ ++ new ++ a₁)) ∧
      ∀ b₂ a₂, b ++ old ++ a = b₂ ++ old ++ a₂ → b₁.length ≤ b₂.length := by
  induction b with
  | nil =>
    refine ⟨[], a, rfl, fun new => ?_, fun _ _ _ => Nat.zero_le _⟩
    obtain ⟨c, cs, rfl⟩ := List.exists_cons_of_ne_nil hold
    have hp : (c :: cs).isPrefixOf? (c :: (cs ++ a)) = some a :=
      List.isPrefixOf?_eq_some_iff_append_eq.2 rfl
    simp [replaceFirst?, hp]
  | cons c b ih =>
    cases hp : old.isPrefixOf? (c :: (b ++ old ++ a)) with
    | some rest =>
      have he := List.isPrefixOf?_eq_some_iff_append_eq.1 hp
      refine ⟨[], rest, by simpa using he.symm, fun new => ?_, fun _ _ _ => Nat.zero_le _⟩
      simp only [List.cons_append, replaceFirst?, hp, List.nil_append]
    | none =>
      obtain ⟨b₁, a₁, he, hr, hmin⟩ := ih
      refine ⟨c :: b₁, a₁, by simp [he], fun new => ?_, fun b₂ a₂ h₂ => ?_⟩
      · simp only [List.cons_append, replaceFirst?, hp, hr, Option.map_some]
      · cases b₂ with
        | nil =>
          have : old.isPrefixOf? (c :: (b ++ old ++ a)) = some a₂ :=
            List.isPrefixOf?_eq_some_iff_append_eq.2 (by simpa using h₂.symm)
          cases hp.symm.trans this
        | cons d b₂ =>
          have h₂ : b ++ old ++ a = b₂ ++ old ++ a₂ := by simpa using (List.cons.inj h₂).2
          exact Nat.succ_le_succ (hmin b₂ a₂ h₂)

/-- The awaited chain stands for the first time between `b` and `a`. -/
structure ResumePoint.First (p : ResumePoint) (b a : List Char) : Prop where
  line : p.line = b ++ p.statement ++ a
  first : ∀ b' a', p.line = b' ++ p.statement ++ a' → b.length ≤ b'.length
  replace : ∀ new, replaceFirst? p.statement new p.line = some (b ++ new ++ a)

/-- The line of a scope stops for the value of a call. It is the call whose chain `r` stands between
`b` and `a`. -/
structure Suspends (s : Scope) (f : Fiber) (σ : EvalState) (q : CallRequest) (σ' : EvalState)
    (b r a : List Char) : Prop where
  run : (Fiber.execute s f (Statement.ofLine s.line)).run σ = .error (.call q) σ'
  resume : q.resume = some ⟨s.line, r⟩
  line : s.line = b ++ r ++ a
  place : (Fiber.executeAt s f).run σ =
    .error (.call { q with resume := some ⟨s.line, b ++ r⟩ }) σ'

section Suspends

variable {s : Scope} {f : Fiber} {σ σ' : EvalState} {q : CallRequest} {b r a : List Char}

theorem exists_suspends {p : ResumePoint}
    (h : (Fiber.execute s f (Statement.ofLine s.line)).run σ = .error (.call q) σ')
    (hq : q.resume = some p) : p.line = s.line ∧ ∃ b a, Suspends s f σ q σ' b p.statement a := by
  have ha := Fiber.execute_alike s f σ
  rw [h] at ha
  generalize hat : (Fiber.executeAt s f).run σ = x at ha
  cases ha with
  | same hn => simp [hq] at hn
  | call hr hl =>
    obtain rfl := Option.some.inj (hq.symm.trans hr)
    obtain ⟨names, b, a, hline, rfl, -⟩ := hl
    exact ⟨rfl, b, a, h, hr, hline, hat⟩

/-- The call that a line stops for has its site there. -/
theorem Suspends.site (h : Suspends s f σ q σ' b r a) : ∃ names, LineSite names b r a := by
  have ha := Fiber.execute_alike s f σ
  rw [h.run, h.place] at ha
  generalize hq : { q with resume := some ⟨s.line, b ++ r⟩ } = q' at ha
  cases ha with
  | same hn => simp [h.resume] at hn
  | call hr hl =>
    obtain rfl : r = _ := congrArg ResumePoint.statement (Option.some.inj (h.resume.symm.trans hr))
    have hp := congrArg CallRequest.resume hq
    obtain ⟨names, b', a', hline, rfl, hs⟩ := hl
    obtain rfl : b = b' := by simpa using hp
    obtain rfl : a = a' := by simpa using h.line.symm.trans hline
    exact ⟨names, hs⟩

/-- A chain up to a call ends with a parenthesis. -/
theorem Site.getLast?_eq {expr : Bool} {names : List (List Char)} (h : Site expr names b r a) :
    r.getLast? = some ')' := by
  induction h with
  | call hc => rw [List.getLast?_append, hc.getLast?_eq]; rfl
  | level _ _ ih => exact ih

theorem Suspends.getLast?_eq (h : Suspends s f σ q σ' b r a) : r.getLast? = some ')' := by
  obtain ⟨names, hs⟩ := h.site
  cases hs with
  | part _ hs => exact hs.getLast?_eq

theorem Suspends.ne_nil (h : Suspends s f σ q σ' b r a) : r ≠ [] := by
  rintro rfl
  simpa using h.getLast?_eq

/-- No line stops for a call that ends where a literal ends. -/
theorem Suspends.place_ne (h : Suspends s f σ q σ' b r a) (x : List Char) (v : Value) :
    b ++ r ≠ x ++ v.literal.toList := by
  intro he
  obtain ⟨c, hc, hv⟩ := v.literal_spells.getLast?_eq
  have hl := congrArg List.getLast? he
  rw [List.getLast?_append, List.getLast?_append, h.getLast?_eq, hc] at hl
  obtain rfl : ')' = c := by simpa using hl
  rcases hv with hv | hv | hv <;> cases hv

theorem Suspends.exists_first {p : ResumePoint} (h : Suspends s f σ q σ' b p.statement a)
    (hp : p.line = s.line) : ∃ b₁ a₁, p.First b₁ a₁ := by
  obtain ⟨b₁, a₁, he, hr, hmin⟩ := replaceFirst?_eq (b := b) (a := a) h.ne_nil
  rw [← h.line, ← hp] at he hr hmin
  exact ⟨b₁, a₁, he, hmin, hr⟩

/-- What follows the first occurrence follows the evaluated one, if they are the same. -/
theorem Suspends.behind_eq {p : ResumePoint} {a₁ : List Char}
    (h : Suspends s f σ q σ' b p.statement a) (hp : p.line = s.line) (hf : p.First b a₁) :
    a₁ = a := List.append_cancel_left (hf.line.symm.trans (hp.trans h.line))

/-- On resume the first occurrence of the awaited chain is replaced, and nothing else. It stands at
or before the chain that was evaluated, and it is that chain exactly if the same text does not occur
earlier on the line. Then no call stands in its place any more, whatever the line is evaluated
in. -/
theorem resume_replaces_first {p : ResumePoint}
    (h : (Fiber.execute s f (Statement.ofLine s.line)).run σ = .error (.call q) σ')
    (hq : q.resume = some p) :
    p.line = s.line ∧ ∃ b a b₁ a₁, Suspends s f σ q σ' b p.statement a ∧ p.First b₁ a₁ ∧
      (∀ {env : Environment} {g : Fiber} {child : FiberId} (v : Value) (w : World),
        g.received = some (.value v) → g.pending = some { p with child } →
        g.resume env w = Fiber.run env { g with received := none, pending := none }
          (some (b₁ ++ v.literal.toList ++ a₁)) w) ∧
      b₁.length ≤ b.length ∧
      (b₁ = b ↔ ∀ b₂ a₂, s.line = b₂ ++ p.statement ++ a₂ → b.length ≤ b₂.length) ∧
      (b₁ = b → a₁ = a) ∧
      ∀ (v : Value) {s' : Scope} {f' : Fiber} {τ τ' : EvalState} {q' : CallRequest}
        {b' r' a' : List Char}, s'.line = b₁ ++ v.literal.toList ++ a₁ →
        Suspends s' f' τ q' τ' b' r' a' → a' ≠ a₁ := by
  obtain ⟨hline, b, a, hs⟩ := exists_suspends h hq
  obtain ⟨b₁, a₁, hfirst⟩ := hs.exists_first hline
  have hle : b₁.length ≤ b.length := hfirst.first b a (hline.trans hs.line)
  refine ⟨hline, b, a, b₁, a₁, hs, hfirst, ?_, hle, ?_, ?_, ?_⟩
  · intro env g child v w hv hp
    simp only [Fiber.resume, hv, hp, hfirst.replace]
  · rw [← hline]
    constructor
    · rintro rfl
      exact hfirst.first
    · intro hb
      have he := hfirst.line.symm.trans (hline.trans hs.line)
      rw [List.append_assoc, List.append_assoc] at he
      exact (List.append_inj he (Nat.le_antisymm hle (hb b₁ a₁ hfirst.line))).1
  · rintro rfl
    exact hs.behind_eq hline hfirst
  · rintro v s' f' τ τ' q' b' r' a' hl hs' rfl
    exact hs'.place_ne b₁ v (List.append_cancel_right (hs'.line.symm.trans hl))

end Suspends

section Example

/-- Where a line stops for a value, if it does. -/
def stop? {α : Type} : EStateM.Result Interrupt EvalState α → Option ResumePoint
  | .error (.call q) _ => q.resume
  | _ => none

theorem of_stop? {α : Type} {x : EStateM.Result Interrupt EvalState α} {p : ResumePoint}
    (h : stop? x = some p) : ∃ q σ, x = .error (.call q) σ ∧ q.resume = some p := by
  unfold stop? at h
  split at h
  · next q σ => exact ⟨q, σ, rfl, h⟩
  · cases h

theorem suspends_of_stop? {s : Scope} {f : Fiber} {σ : EvalState} {b r a : List Char}
    (h : stop? ((Fiber.execute s f (Statement.ofLine s.line)).run σ) = some ⟨s.line, r⟩)
    (hp : stop? ((Fiber.executeAt s f).run σ) = some ⟨s.line, b ++ r⟩)
    (hl : s.line = b ++ r ++ a) : ∃ q σ', Suspends s f σ q σ' b r a := by
  obtain ⟨q, σ', hx, hq⟩ := of_stop? h
  obtain ⟨-, b', a', hs⟩ := exists_suspends hx hq
  rw [hs.place] at hp
  obtain rfl : b' = b := by simpa [stop?] using hp
  obtain rfl : a' = a := by simpa using hs.line.symm.trans hl
  exact ⟨q, σ', hs⟩

/-- A line of a fiber on the entity with the item `k`. -/
def keyScope (line : String) : Scope where
  env := keyEnvironment
  entity := ⟨0⟩
  authority := 0
  vars := {("k", .item ⟨0⟩)}
  line := line.toList

def keyFiber : Fiber := Fiber.start 0 ⟨0⟩ 0 ""

theorem resume_replaces_first_argument : ∃ q σ' p,
    (Fiber.execute (keyScope "log(k.turn())") keyFiber (.bare "log(k.turn())".toList)).run
      { world := keyWorld } = .error (.call q) σ' ∧ q.resume = some p ∧
    p.line = "log(k.turn())".toList ∧
    replaceFirst? p.statement (Value.int 5).literal.toList p.line = some "log(5)".toList := by
  obtain ⟨q, σ', hx, hq⟩ := of_stop? (p := ⟨"log(k.turn())".toList, "k.turn()".toList⟩)
    (x := (Fiber.execute (keyScope "log(k.turn())") keyFiber
      (Statement.ofLine (keyScope "log(k.turn())").line)).run { world := keyWorld })
    (by decide +kernel)
  have hl : Statement.ofLine (keyScope "log(k.turn())").line = .bare "log(k.turn())".toList := by
    decide +kernel
  obtain ⟨hline, -⟩ := resume_replaces_first hx hq
  exact ⟨q, σ', _, hl ▸ hx, hq, hline, by decide +kernel⟩

/-- The same text in quotes, earlier on the line, is replaced instead of the call. -/
theorem resume_replaces_quoted_text : ∃ q σ',
    Suspends (keyScope "k.pair(\"k.turn()\", k.turn())") keyFiber { world := keyWorld } q σ'
      "k.pair(\"k.turn()\", ".toList "k.turn()".toList ")".toList ∧
    replaceFirst? "k.turn()".toList (Value.int 5).literal.toList
        (keyScope "k.pair(\"k.turn()\", k.turn())").line ≠
      some ("k.pair(\"k.turn()\", ".toList ++ (Value.int 5).literal.toList ++ ")".toList) := by
  obtain ⟨q, σ', hs⟩ := suspends_of_stop? (s := keyScope "k.pair(\"k.turn()\", k.turn())")
    (f := keyFiber) (σ := { world := keyWorld }) (b := "k.pair(\"k.turn()\", ".toList)
    (r := "k.turn()".toList) (a := ")".toList) (by decide +kernel) (by decide +kernel)
    (by decide +kernel)
  exact ⟨q, σ', hs, by decide +kernel⟩

end Example

end TileScript
