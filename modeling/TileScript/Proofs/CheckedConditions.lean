import TileScript.Proofs.CheckedBlocks
import TileScript.System.Builtin

/-! # Checked conditions

The check reads each condition as it is written, and a fiber reads it again with a value in the
place of each call that it has waited for. A text with a space falls apart into words there, so what
was one operand can be anything. Nothing else makes a condition unreadable that has passed the
check.
-/

namespace TileScript

open Text

/-- A literal has a sign that no joiner has. -/
theorem Value.Spells.exists_sign {v : Value} {q : List Char} (h : v.Spells q) :
    ∃ c ∈ q, c ∉ "and".toList ∧ c ∉ "or".toList := by
  obtain ⟨c, hc, hv⟩ := h.head?_eq
  refine ⟨c, List.mem_of_head? hc, ?_⟩
  rcases hv with rfl | hd | rfl | rfl
  · decide
  · constructor
    · intro hm
      have hc : c = 'a' ∨ c = 'n' ∨ c = 'd' := by simpa using hm
      rcases hc with rfl | rfl | rfl <;> cases hd
    · intro hm
      have hc : c = 'o' ∨ c = 'r' := by simpa using hm
      rcases hc with rfl | rfl <;> cases hd
  · decide
  · decide

namespace Statement

/-- The error that the check finds in a condition. -/
def Raises (st : Statement) (e : ScriptError) : Prop :=
  ∃ text, st = .branch text ∧ Check.condition text = .error e

/-- The condition of an `if` line around a part of it. -/
theorem ofLine_around {b x q a : List Char} (hb : "if ".toList ++ x = trimStart b) (hq : q ≠ [])
    (ht : trim q = q) :
    ofLine (b ++ q ++ a) = .branch (trimStart x ++ q ++ trimEnd (trimEnd a)) := by
  have hline : trim (b ++ q ++ a) = "if ".toList ++ (x ++ q ++ trimEnd a) := by
    rw [trim_around hq ht, ← hb]
    simp only [List.append_assoc]
  rw [ofLine_branch hline, trim_around hq ht]

end Statement

/-- A condition that can be read before its line stops can be read with a value in it, unless the
value has a space. -/
theorem Suspends.resumed_legible {s : Scope} {f : Fiber} {σ σ' : EvalState} {q : CallRequest}
    {b r a b₁ a₁ : List Char} (h : Suspends s f σ q σ' b r a) (hl : s.line = b₁ ++ r ++ a₁)
    {v : Value} (hv : (Statement.ofLine s.line).kind = .branch → ' ' ∉ v.literal.toList)
    (hs : ∀ e, ¬ (Statement.ofLine s.line).Raises e) (e : ScriptError) :
    ¬ (Statement.ofLine (b₁ ++ v.literal.toList ++ a₁)).Raises e := by
  rintro ⟨text, ht, he⟩
  have hk : (Statement.ofLine s.line).kind = .branch := by
    rw [← (h.resumed_part v hl).1, ht]
    rfl
  have hspace : ' ' ∉ r := by
    obtain ⟨names, hsite⟩ := h.site
    exact hsite.no_space (h.line ▸ hk)
  obtain ⟨x, hx⟩ := h.keyword_before hk hl
  have hlit := v.literal_spells
  rw [Statement.ofLine_around hx hlit.ne_nil hlit.trim_eq] at ht
  cases ht
  rw [hl, Statement.ofLine_around hx h.ne_nil h.trim_eq] at hs
  have hold : ∃ b, Check.condition (trimStart x ++ r ++ trimEnd (trimEnd a₁)) = .ok b := by
    cases hc : Check.condition (trimStart x ++ r ++ trimEnd (trimEnd a₁)) with
    | ok b => exact ⟨b, rfl⟩
    | error e => exact absurd ⟨_, rfl, hc⟩ (hs e)
  obtain ⟨c, hc, hand, hor⟩ := hlit.exists_sign
  obtain ⟨b, hb⟩ := Check.condition_exchange hspace (List.mem_of_getLast? h.getLast?_eq) (hv hk) hc
    hand hor hold
  cases he.symm.trans hb

/-- A script that passes the check has no condition that raises an error. -/
theorem not_raises_of_check {source : String} (h : check source = .ok ()) {line : List Char}
    (hl : line ∈ trimmedLines source) (e : ScriptError) :
    ¬ (Statement.ofLine line).Raises e := by
  rintro ⟨text, ht, he⟩
  obtain ⟨m, hm, rfl⟩ := List.mem_map.1 hl
  obtain ⟨i, hi⟩ := List.mem_iff_getElem?.1 hm
  obtain ⟨opened, ho, -⟩ := Check.exists_openedBefore h i
  obtain ⟨opened', ho', -⟩ := Check.exists_openedBefore h (i + 1)
  rw [Check.openedBefore_succ hi ho, ← Statement.ofLine_trim, ht, Check.statement, he] at ho'
  cases ho'

/-- The condition on a line, if there is one, raises no errors but those in `E`. -/
def RaisesOnly (E : ScriptError → Prop) (line : List Char) : Prop :=
  ∀ e, (Statement.ofLine line).Raises e → E e

/-- What an activation comes to when the conditions that it may read raise no errors but those in
`E`. -/
inductive Outcome.Read (received : Option ChildResult) (E : ScriptError → Prop) :
    Outcome → Prop where

  | rests {o : Outcome} : o = .skipped ∨ o = .yielded → Read received E o

  | called {q : CallRequest} : (∀ p, q.resume = some p → RaisesOnly E p.line) →
      Read received E (.called q)

  | terminated {t : Termination} :
      (∀ e, t.ending = .failed e → e.isCondition = true → received = some (.failed e) ∨ E e) →
      Read received E (.terminated t)

theorem Search.mem_of_found {c d : Cursor} {coming : List (List Char)} {line : List Char}
    {st : Statement} (h : Search.run c coming = .found d line st) : line ∈ coming := by
  fun_induction Search.run c coming <;> grind

namespace Fiber

variable {f g : Fiber} {received : Option ChildResult} {E : ScriptError → Prop}

theorem raisesOnly_of_nextStatement {coming : List (List Char)} {evaluated : Bool} {c : Cursor}
    {line : List Char} {st : Statement} (hl : ∀ line ∈ f.lines, RaisesOnly E line)
    (hc : ∀ line ∈ coming, RaisesOnly E line)
    (h : f.nextStatement coming evaluated = (g, .found c line st)) : RaisesOnly E line := by
  unfold nextStatement at h
  split at h
  · split at h
    · exact hl line (Search.mem_of_found (Prod.mk.inj h).2)
    · cases (Prod.mk.inj h).2
  · exact hc line (Search.mem_of_found (Prod.mk.inj h).2)

theorem terminate_read {ending : Ending} {line : Option Nat} {w : World}
    (h : ∀ e, ending = .failed e → e.isCondition = true → received = some (.failed e) ∨ E e) :
    Outcome.Read received E (f.terminate ending line w).1 := .terminated h

/-- All conditions that statements read are on the coming lines or on those of the script. -/
theorem runStatements_read (env : Environment) (budget : Nat) (coming : List (List Char))
    (evaluated : Bool) (w : World) (hl : ∀ line ∈ f.lines, RaisesOnly E line)
    (hc : ∀ line ∈ coming, RaisesOnly E line) :
    Outcome.Read received E (f.runStatements env budget coming evaluated w).1 := by
  fun_induction runStatements env budget f coming evaluated w with
  | case1 | case4 => exact .rests (.inr rfl)
  | case2 | case3 | case7 =>
    refine terminate_read ?_
    rintro e ⟨⟩ ⟨⟩
  | case5 f coming evaluated w g c line st hn g' budget k σ hx hp ih =>
    have hlines : k.lines = f.lines :=
      (execute_cursor hx).1.trans (congrArg Links.lines (frame_of_nextStatement hn).1)
    refine ih ?_ fun line hm => ?_
    · rwa [hlines]
    · exact hl line (hlines ▸ List.mem_of_mem_drop hm)
  | case6 f coming evaluated w g c line st hn g' budget e σ hx =>
    refine terminate_read ?_
    rintro _ ⟨⟩ hcond
    obtain ⟨text, hst, ht⟩ := execute_condition hx hcond
    rw [(of_nextStatement_found hn).2] at hst
    exact .inr (raisesOnly_of_nextStatement hl hc hn e ⟨text, hst, ht⟩)
  | case8 f coming evaluated w g c line st hn g' budget q σ hx cursor =>
    refine .called fun p hp => ?_
    rw [(of_nextStatement_found hn).2] at hx
    rw [(exists_suspends hx hp).1]
    exact raisesOnly_of_nextStatement hl hc hn

/-- The fiber goes on with an `if` line that the check rejects. -/
def Misreads (f : Fiber) (e : ScriptError) : Prop :=
  ∃ v p text, f.received = some (.value v) ∧ f.pending = some p ∧
    replaceFirst? p.statement v.literal.toList p.line = some text ∧
    (Statement.ofLine text).Raises e

/-- If a script passes the check, only the line that its fiber goes on with may be unreadable. -/
theorem activate_read {source : String} (hc : check source = .ok ())
    (hl : f.lines = trimmedLines source) (env : Environment) (forced : Bool) (w : World) :
    Outcome.Read f.received f.Misreads (f.activate env forced w).1 := by
  have hlines : ∀ line ∈ f.lines, RaisesOnly f.Misreads line :=
    fun line hm e he => absurd he (not_raises_of_check hc (hl ▸ hm) e)
  have hdrop (n : Nat) : ∀ line ∈ f.lines.drop n, RaisesOnly f.Misreads line :=
    fun line hm => hlines line (List.mem_of_mem_drop hm)
  unfold activate
  split
  · exact .rests (.inl rfl)
  · split
    · refine terminate_read ?_
      rintro e ⟨⟩ ⟨⟩
    · split
      · exact .rests (.inl rfl)
      · split
        · exact .rests (.inl rfl)
        · unfold resume
          dsimp only
          split
          · next e pending hr =>
            refine terminate_read ?_
            rintro _ ⟨⟩ -
            exact .inl hr
          · next v p hr hp =>
            split
            · next text ht =>
              refine runStatements_read _ _ _ _ _ hlines ?_
              intro line hm e he
              rcases List.mem_cons.1 hm with rfl | hm
              · exact ⟨v, p, line, hr, hp, ht, he⟩
              · exact hdrop _ line hm e he
            · refine terminate_read ?_
              rintro e ⟨⟩ ⟨⟩
          · exact runStatements_read _ _ _ _ _ hlines (hdrop _)
          · exact runStatements_read _ _ _ _ _ hlines (hdrop _)

/-- The fiber stops on a line for a value in one of its activations. -/
def StopsFor (f : Fiber) (p : ResumePoint) : Prop :=
  ∃ env forced w q, (f.activate env forced w).1 = .called q ∧ q.resume = some p

end Fiber

namespace Scheduler

open TileScript.Fiber

variable {s s' : Scheduler} {id : FiberId} {f : Fiber}

/-- The fiber `id` is given no value with a space for an `if` line. -/
def Unspaced (id : FiberId) (s : Scheduler) : Prop :=
  ∀ (f : Fiber) (v : Value) (p : PendingCall), s.fibers[id]? = some f →
    f.received = some (.value v) → f.pending = some p →
    (Statement.ofLine p.line).kind = .branch → ' ' ∉ v.literal.toList

theorem Unspaced.not_misreads {depth : Nat → Nat} (h : s.Unspaced id)
    (hf : s.fibers[id]? = some f) (hi : f.InStep depth)
    (hp : ∀ p, f.pending = some p → ∀ e, ¬ (Statement.ofLine p.line).Raises e) (e : ScriptError) :
    ¬ f.Misreads e := by
  rintro ⟨v, p, text, hr, hpend, ht, he⟩
  obtain ⟨s', g, σ, q, σ', hx, hq⟩ := (hi.pending hpend).awaited
  obtain ⟨hline, b, a, hs⟩ := exists_suspends hx hq
  obtain ⟨b₁, a₁, hfirst⟩ := hs.exists_first hline
  obtain rfl : b₁ ++ v.literal.toList ++ a₁ = text :=
    Option.some.inj ((hfirst.replace _).symm.trans ht)
  refine hs.resumed_legible (hline ▸ hfirst.line) ?_ ?_ e he
  · rw [← hline]
    exact h f v p hf hr hpend
  · rw [← hline]
    exact hp p hpend

/-- A fiber that waits for a value has waited for it before, or it stops for it in the move. -/
theorem pending_of_move (hl : Linked s) (hm : Move s s') (hf : s'.fibers[id]? = some f)
    {p : PendingCall} (hp : f.pending = some p) :
    ∃ g, s.fibers[id]? = some g ∧ f.lines = g.lines ∧
      (g.pending = some p ∨ g.StopsFor p.toResumePoint) := by
  have hretire {a : FiberId} {parent : Option FiberId} {r : ChildResult}
      (hf : (s.retire a parent r).fibers[id]? = some f) :
      ∃ g, s.fibers[id]? = some g ∧ f.lines = g.lines ∧
        (g.pending = some p ∨ g.StopsFor p.toResumePoint) := by
    obtain ⟨-, g, hg, ⟨-, -, rfl⟩ | ⟨-, rfl⟩⟩ := of_getElem?_retire hf
    · exact ⟨g, hg, rfl, .inl hp⟩
    · exact ⟨f, hg, rfl, .inl hp⟩
  cases hm with
  | attach ha =>
    unfold attach at ha
    split_ifs at ha
    cases ha
    rcases of_getElem?_insert hf with ⟨-, rfl⟩ | ⟨-, hf⟩
    · cases hp
    · exact ⟨f, hf, rfl, .inl hp⟩
  | detach a =>
    cases ha : s.fibers[a]? with
    | none => exact ⟨f, by simpa [detach, ha] using hf, rfl, .inl hp⟩
    | some g =>
      rw [detach_eq_retire ha] at hf
      exact hretire hf
  | step env w task =>
    have hs := step_stepped hl env w task
    generalize (s.step env w task).2.2 = ts at hs
    generalize (s.step env w task).1 = s' at hs hf
    cases hs with
    | gone _ => exact ⟨f, hf, rfl, .inl hp⟩
    | @rest g g' o w' hg hx ho =>
      rcases of_getElem?_insert hf with ⟨rfl, rfl⟩ | ⟨-, hf⟩
      · have ha := activate_activated (hl.placed hg).toSound env task.forced w
        rw [hx] at ha
        cases ha with
        | skipped => exact ⟨_, hg, rfl, .inl hp⟩
        | yielded _ _ _ hidle => cases hidle.pending.symm.trans hp
        | called | terminated => simp at ho
      · exact ⟨f, hf, rfl, .inl hp⟩
    | @call g g' child r w' hg hx hc =>
      rcases of_getElem?_insert hf with ⟨rfl, rfl⟩ | ⟨-, hf⟩
      · have hlines := activate_lines env task.forced g w
        rw [hx] at hlines
        obtain ⟨q, hq, rfl⟩ := Option.map_eq_some_iff.1 hp
        exact ⟨g, hg, hlines, .inr ⟨env, task.forced, w, r, by rw [hx], hq⟩⟩
      · rcases of_getElem?_insert hf with ⟨-, rfl⟩ | ⟨-, hf⟩
        · cases hc.pending.symm.trans hp
        · exact ⟨f, hf, rfl, .inl hp⟩
    | retire r _ _ => exact hretire hf

/-- One scheduler comes after the other in a run that gives the fiber `id` no value with a space for
an `if` line. -/
def UnspacedMove (id : FiberId) (s s' : Scheduler) : Prop := Move s s' ∧ s'.Unspaced id

theorem unspaced_of_moves (h : Relation.ReflTransGen (UnspacedMove id) {} s) : s.Unspaced id := by
  cases h with
  | refl =>
    intro f v p hf
    simp at hf
  | tail _ hm => exact hm.2

theorem moves_of_unspaced (h : Relation.ReflTransGen (UnspacedMove id) {} s) :
    Relation.ReflTransGen Move {} s :=
  Relation.ReflTransGen.mono (fun _ _ (hm : UnspacedMove id _ _) => hm.1) _ _ h

/-- In such a run the fiber, if its script passes the check, goes on with lines that can be read. -/
theorem not_misreads_of_moves {source : String} (hc : check source = .ok ())
    (h : Relation.ReflTransGen (UnspacedMove id) {} s) (hf : s.fibers[id]? = some f)
    (hl : f.lines = trimmedLines source) (e : ScriptError) : ¬ f.Misreads e := by
  have hprofile {f : Fiber} (hl : f.lines = trimmedLines source) :
      Profile (Check.depthAt source) f.lines := hl ▸ profile_of_check hc
  -- what is to be carried through the run is that the lines it waits on can be read
  suffices hp : ∀ p, f.pending = some p → ∀ e, ¬ (Statement.ofLine p.line).Raises e by
    have hi := nested_kept.moves (moves_of_unspaced h) id f hf _ (hprofile hl)
    exact (unspaced_of_moves h).not_misreads hf hi hp e
  clear e
  induction h generalizing f with
  | refl => simp at hf
  | @tail s s' hms hm ih =>
    intro p hp e he
    have hlinked : Linked s := linked_empty.moves (moves_of_unspaced hms)
    obtain ⟨g, hg, hlines, hp | hstop⟩ := pending_of_move hlinked hm.1 hf hp
    · exact ih hg (hlines ▸ hl) p hp e he
    · obtain ⟨env, forced, w, q, hx, hq⟩ := hstop
      rw [hlines] at hl
      have hread := activate_read hc hl env forced w
      have hi := nested_kept.moves (moves_of_unspaced hms) id g hg _ (hprofile hl)
      rw [hx] at hread
      cases hread with
      | rests ho => simp at ho
      | called hr =>
        exact (unspaced_of_moves hms).not_misreads hg hi (ih hg hl) e (hr _ hq e he)

/-- A call is never refused for a condition. -/
theorem spawn_no_condition {env : Environment} {caller : Fiber} {q : CallRequest} {e : ScriptError}
    (h : s.spawn env caller q = .error e) : e.isCondition = false := by
  obtain rfl | ⟨-, rfl⟩ | rfl := spawn_error h <;> rfl

/-- A fiber whose script passes the check fails for a condition only if a function that it has
called failed for one, or if the line it goes on with, the value being in its place, is an `if` line
that the check rejects for the same reason. The latter takes a value with a space: a fiber that has
never been given such a value for an `if` line fails for no condition of its own. -/
theorem checked_conditions (hf : s.fibers[id]? = some f) {source : String}
    (hl : f.lines = trimmedLines source) (hc : check source = .ok ()) (env : Environment)
    (forced : Bool) (w : World) :
    (∀ {t : Termination} {e : ScriptError}, (f.activate env forced w).1 = .terminated t →
      t.ending = .failed e → e.isCondition = true →
      f.received = some (.failed e) ∨ f.Misreads e) ∧
    (Relation.ReflTransGen (UnspacedMove id) {} s →
      ∀ {t : Termination} {e : ScriptError}, (f.activate env forced w).1 = .terminated t →
        t.ending = .failed e → e.isCondition = true → f.received = some (.failed e)) ∧
    ∀ (s' : Scheduler) (caller : Fiber) (q : CallRequest) (e : ScriptError),
      s'.spawn env caller q = .error e → e.isCondition = false := by
  have hfails {t : Termination} {e : ScriptError} (ht : (f.activate env forced w).1 = .terminated t)
      (he : t.ending = .failed e) (hcond : e.isCondition = true) :
      f.received = some (.failed e) ∨ f.Misreads e := by
    have hread := activate_read hc hl env forced w
    rw [ht] at hread
    cases hread with
    | rests ho => simp at ho
    | terminated hr => exact hr e he hcond
  refine ⟨hfails, ?_, fun _ _ _ _ => spawn_no_condition⟩
  intro hm t e ht he hcond
  rcases hfails ht he hcond with hr | hr
  · exact hr
  · exact absurd hr (not_misreads_of_moves hc hm hf hl e)

section Example

/-- The condition asks the item. -/
def askSource : String := "if $Item[0].turn() == 1\nend"

/-- The function of the item has the script `source`. -/
def askEnvironment (source : String) : Environment :=
  { keyEnvironment with
    systems := .builtins
    source := { list := fun _ => .ok ["key.turn"], load? := fun _ _ => some source } }

def askStart : Scheduler where
  fibers := {(0, Fiber.start 0 ⟨0⟩ 0 askSource)}
  nextId := 1

/-- The scheduler and the world when the fiber has called. -/
def askCalled (source : String) : Scheduler :=
  (askStart.step (askEnvironment source) keyWorld ⟨0, false⟩).1

def askCalledWorld (source : String) : World :=
  (askStart.step (askEnvironment source) keyWorld ⟨0, false⟩).2.1

/-- The scheduler and the world when the function has ended. -/
def askAnswered (source : String) : Scheduler :=
  ((askCalled source).step (askEnvironment source) (askCalledWorld source) ⟨1, true⟩).1

def askAnsweredWorld (source : String) : World :=
  ((askCalled source).step (askEnvironment source) (askCalledWorld source) ⟨1, true⟩).2.1

/-- The function returns a text with a space. -/
def spacedAnswer : String := "exit(\"a b\")"

theorem unspaced_of_received {r : Option ChildResult}
    (h : s.fibers[id]?.bind (·.received) = r)
    (hr : ∀ v, r = some (.value v) → ' ' ∉ v.literal.toList) : s.Unspaced id := by
  intro f v p hf hv _ _
  refine hr v ?_
  rw [← h, hf]
  exact hv

/-- After a number nothing goes wrong with the condition, wherever the fiber goes on. -/
theorem checked_conditions_number : ∃ f, (askAnswered "exit(5)").fibers[0]? = some f ∧
    f.received = some (.value (.int 5)) ∧
    ∀ (env : Environment) (forced : Bool) (w : World) (t : Termination) (e : ScriptError),
      (f.activate env forced w).1 = .terminated t → t.ending = .failed e →
      e.isCondition = false := by
  have hx : (askAnswered "exit(5)").fibers[0]?.map (fun f => (f.lines, f.received)) =
      some (trimmedLines askSource, some (.value (.int 5))) := by decide +kernel
  obtain ⟨f, hf, hx⟩ := Option.map_eq_some_iff.1 hx
  obtain ⟨hl, hr⟩ := Prod.mk.inj hx
  have hattach : attach {} keyWorld ⟨0⟩ askSource 0 = .ok (0, askStart) := rfl
  have hstart : UnspacedMove 0 {} askStart :=
    ⟨.attach hattach, unspaced_of_received (r := none) (by decide +kernel) (by simp)⟩
  have hcall : UnspacedMove 0 askStart (askCalled "exit(5)") :=
    ⟨.step _ _ _, unspaced_of_received (r := none) (by decide +kernel) (by simp)⟩
  have hanswer : UnspacedMove 0 (askCalled "exit(5)") (askAnswered "exit(5)") := by
    refine ⟨.step _ _ _, unspaced_of_received (r := f.received) (by rw [hf]; rfl) ?_⟩
    rintro v hv
    cases hr.symm.trans hv
    decide +kernel
  have hm : Relation.ReflTransGen (UnspacedMove 0) {} (askAnswered "exit(5)") :=
    ((Relation.ReflTransGen.single hstart).tail hcall).tail hanswer
  refine ⟨f, hf, hr, fun env forced w t e ht he => ?_⟩
  rw [← Bool.not_eq_true]
  intro hcond
  have hfailed := (checked_conditions hf hl (by decide +kernel) env forced w).2.1 hm ht he hcond
  cases hr.symm.trans hfailed

/-- A text with a space falls apart into words, the second of which stands where the operator
should. -/
theorem condition_falls_apart : ∃ (f : Fiber) (t : Termination),
    Occurs (askAnswered spacedAnswer) ∧ (askAnswered spacedAnswer).fibers[0]? = some f ∧
    f.lines = trimmedLines askSource ∧ check askSource = .ok () ∧
    f.received = some (.value (.text "a b")) ∧
    (f.activate (askEnvironment spacedAnswer) true (askAnsweredWorld spacedAnswer)).1 =
      .terminated t ∧
    t.ending = .failed (.unknownOperator "b\"") := by
  have hattach : attach {} keyWorld ⟨0⟩ askSource 0 = .ok (0, askStart) := rfl
  have hk : askStart.fibers.keys = [0] := by decide +kernel
  have hw : AtWork (askEnvironment spacedAnswer) askStart keyWorld [0] [] askStart keyWorld :=
    hk ▸ .enter
  have htasks : (askStart.step (askEnvironment spacedAnswer) keyWorld ⟨0, false⟩).2.2 ++ [] =
      [⟨1, true⟩] := by decide +kernel
  have hcalled : AtWork (askEnvironment spacedAnswer) askStart keyWorld [] [⟨1, true⟩]
      (askCalled spacedAnswer) (askCalledWorld spacedAnswer) := htasks ▸ hw.next.step
  have ho : Occurs (askAnswered spacedAnswer) :=
    .within (Reachable.empty.attach hattach) hcalled.step
  have hx : (askAnswered spacedAnswer).fibers[0]?.bind (fun f =>
      match (f.activate (askEnvironment spacedAnswer) true (askAnsweredWorld spacedAnswer)).1 with
      | .terminated t => some (f.lines, f.received, t.ending)
      | _ => none) = some (trimmedLines askSource, some (.value (.text "a b")),
        .failed (.unknownOperator "b\"")) := by decide +kernel
  obtain ⟨f, hf, hx⟩ := Option.bind_eq_some_iff.1 hx
  split at hx
  · next t ht =>
    simp only [Option.some.injEq, Prod.mk.injEq] at hx
    exact ⟨f, t, ho, hf, hx.1, by decide +kernel, hx.2.1, ht, hx.2.2⟩
  · cases hx

end Example

end Scheduler

end TileScript
