import TileScript.Proofs.CheckedConditions

/-! # Resume points

The text of a chain up to a call is a part of the chain, and is read as the segments up to the call.
So what a fiber waits for stands on the line it waits on, and when a value comes there is a place
for it.
-/

namespace TileScript

open Text

namespace Segment

theorem ofFragment_eq_of_trim {p q : List Char} (h : Text.trim p = Text.trim q) :
    ofFragment p = ofFragment q := by
  unfold ofFragment
  rw [h]

/-- A call is not empty. -/
theorem trim_ne_nil_of_call {q t : List Char} (h : ofFragment q = .call t) : Text.trim q ≠ [] := by
  intro hq
  simp [ofFragment, hq] at h

end Segment

namespace Chain

/-- The text up to a fragment that is not blank is a beginning of the chain without blanks at its
ends, and has the fragments up to that one, but for blanks behind it. -/
theorem fragments_upToSegment {statement q : List Char} {i : Nat}
    (h : (fragments (trim statement))[i]? = some q) (hq : trim q ≠ []) :
    ∃ u r y, upToSegment statement i = u ∧ trim statement = u ++ y ∧ trim u = u ∧ u ≠ [] ∧
      trim r = trim q ∧ fragments u = (fragments (trim statement)).take i ++ [r] := by
  obtain ⟨p, hp, rfl⟩ : ∃ p,
      (Span.split cutsChain Nesting.step {} ⟨[], trim statement⟩)[i]? = some p ∧ p.text = q := by
    rw [fragments, ← Span.map_text_split ⟨[], trim statement⟩, List.getElem?_map] at h
    exact Option.map_eq_some_iff.1 h
  have hkeep := keepFragments_of_getElem? hp
  obtain ⟨hi, rfl⟩ := List.getElem?_eq_some_iff.1 hp
  have hcut := (List.take_append_drop i _).symm.trans
    (congrArg _ (List.drop_eq_getElem_cons hi))
  obtain ⟨x, y, htext, hbefore, hpiece, hsplit, -⟩ := Span.piece_of_split_eq hcut
  generalize (Span.split cutsChain Nesting.step {} ⟨[], trim statement⟩)[i] = p at *
  have htext : trim statement = x ++ p.text ++ y := htext
  -- `r` is the fragment without the blanks at its end
  obtain ⟨n, hn, hpn⟩ := exists_trimEnd p.text
  have hlastp (c : Char) (hc : (trimEnd p.text).getLast? = some c) : isBlank c = false :=
    isBlank_of_getLast?_trimEnd hc
  generalize trimEnd p.text = r at hpn hlastp
  have hrq : trim r = trim p.text := by rw [hpn, trim_append r hn]
  have hr : r ≠ [] := by
    rintro rfl
    exact hq hrq.symm
  have hlast (c : Char) (hc : (x ++ r).getLast? = some c) : isBlank c = false := by
    rw [List.getLast?_append_of_ne_nil _ hr] at hc
    exact hlastp c hc
  have hhead (c : Char) (hc : (x ++ r).head? = some c) : isBlank c = false := by
    have hs : (trim statement).head? = some c := by
      rw [htext, hpn, ← List.append_assoc, List.append_assoc, List.head?_append, hc]
      rfl
    exact isBlank_of_head?_trim hs
  refine ⟨x ++ r, r, n ++ y, ?_, ?_, trim_of_ends hhead hlast, by simp [hr], hrq, ?_⟩
  · have hkeep : keepFragments {} i (trim statement) = x ++ p.text := by
      simpa [hbefore] using hkeep
    rw [upToSegment, hkeep, hpn, ← List.append_assoc, trimEnd_append _ hn,
      trimEnd_of_getLast? hlast]
  · rw [htext, hpn]
    simp
  · have hu : Uncut cutsChain Nesting.step (x.foldl Nesting.step {}) r :=
      (uncut_append.1 (hpn ▸ hpiece.uncut)).1
    rw [fragments, hsplit, splitWhere_uncut hu, List.map_take, Span.map_text_split]
    rfl

/-- The text up to a call is part of the chain, and is read as the segments up to the call. -/
theorem segments_upToSegment {statement call : List Char} {i : Nat}
    (h : (segments statement)[i]? = some (.call call)) :
    segments (upToSegment statement i) = (segments statement).take (i + 1) ∧
      upToSegment statement i <:+: statement := by
  have hsegments (cs : List Char) (hcs : trim cs ≠ []) :
      segments cs = (fragments (trim cs)).map Segment.ofFragment := by
    simp [segments, hcs]
  have hne : trim statement ≠ [] := by
    intro hn
    simp [segments, hn] at h
  rw [hsegments _ hne, List.getElem?_map] at h
  obtain ⟨q, hq, hc⟩ := Option.map_eq_some_iff.1 h
  obtain ⟨u, r, y, rfl, htext, hu, hun, hr, hf⟩ :=
    fragments_upToSegment hq (Segment.trim_ne_nil_of_call hc)
  constructor
  · rw [hsegments _ hne, hsegments _ (by rwa [hu]), hu, hf, List.take_add_one, List.map_append,
      List.map_take, List.getElem?_map, hq]
    simp [Segment.ofFragment_eq_of_trim hr]
  · obtain ⟨t, -, ht⟩ := exists_trim statement
    refine ⟨statement.takeWhile isBlank, y ++ t, ?_⟩
    conv_rhs => rw [ht, htext]
    simp

end Chain

/-- A text can be replaced wherever it occurs. -/
theorem Text.isSome_replaceFirst? {old cs : List Char} (h : old <:+: cs) (new : List Char) :
    (replaceFirst? old new cs).isSome := by
  induction cs with
  | nil => simp [replaceFirst?, List.infix_nil.1 h]
  | cons c cs ih =>
    rw [replaceFirst?]
    split
    · rfl
    · next hn =>
      obtain ⟨rest, hp⟩ | hi := List.infix_cons_iff.1 h
      · exact absurd (List.isPrefixOf?_eq_some_iff_append_eq.2 hp) (by simp [hn])
      · simpa using ih hi

/-- The error of a fiber that does not find on its line what it waits for. -/
def ScriptError.isLost : ScriptError → Bool
  | .lostResume _ => true
  | _ => false

/-- The awaited chain is part of the line. -/
def ResumePoint.WellFormed (p : ResumePoint) : Prop := p.statement <:+: p.line

/-- What an activation comes to: what it awaits is on its line, and it does not fail for want of
it. -/
inductive Outcome.WellFormed : Outcome → Prop where

  | rests {o : Outcome} : o = .skipped ∨ o = .yielded → WellFormed o

  | called {q : CallRequest} : (∀ p, q.resume = some p → p.WellFormed) → WellFormed (.called q)

  | terminated {t : Termination} : (∀ e, t.ending = .failed e → e.isLost = false) →
      WellFormed (.terminated t)

namespace Fiber

variable {f g : Fiber}

/-- What a fiber awaits is on its line, and it has not been handed the error of one that lost it. -/
structure WellFormed (f : Fiber) : Prop where
  pending {p : PendingCall} : f.pending = some p → p.toResumePoint.WellFormed
  received {e : ScriptError} : f.received = some (.failed e) → e.isLost = false

theorem WellFormed.of_idle (hp : f.pending = none) (hr : f.received = none) : f.WellFormed :=
  ⟨by simp [hp], by simp [hr]⟩

theorem WellFormed.deliver (h : f.WellFormed) {r : ChildResult}
    (hr : ∀ e, r = .failed e → e.isLost = false) : (f.deliver r).WellFormed :=
  ⟨h.pending, fun he => hr _ (Option.some.inj he)⟩

theorem terminate_wellFormed {ending : Ending} {line : Option Nat} {w : World}
    (h : ∀ e, ending = .failed e → e.isLost = false) :
    (f.terminate ending line w).1.WellFormed := .terminated h

/-- No error of a statement is about a lost line. -/
theorem execute_not_lost {s : Scope} {st : Statement} {σ σ' : EvalState} {e : ScriptError}
    (h : (execute s f st).run σ = .error (.error e) σ') : e.isLost = false := by
  have he : e.isEvaluation = true := execute_stops s f st σ _ σ' h
  cases e <;> first | rfl | cases he

theorem runStatements_wellFormed (env : Environment) (budget : Nat) (coming : List (List Char))
    (evaluated : Bool) (w : World) :
    (f.runStatements env budget coming evaluated w).1.WellFormed := by
  fun_induction runStatements env budget f coming evaluated w with
  | case1 | case4 => exact .rests (.inr rfl)
  | case2 | case3 | case7 =>
    refine terminate_wellFormed ?_
    rintro e ⟨⟩ <;> rfl
  | case5 f coming evaluated w g c line st hn g' budget k σ hx hp ih => exact ih
  | case6 f coming evaluated w g c line st hn g' budget e σ hx =>
    refine terminate_wellFormed ?_
    rintro _ ⟨⟩
    exact execute_not_lost hx
  | case8 f coming evaluated w g c line st hn g' budget q σ hx cursor =>
    refine .called fun p hp => ?_
    rw [(of_nextStatement_found hn).2] at hx
    obtain ⟨hline, b, a, hs⟩ := exists_suspends hx hp
    exact ⟨b, a, (hline.trans hs.line).symm⟩

theorem activate_wellFormed (h : f.WellFormed) (env : Environment) (forced : Bool) (w : World) :
    (f.activate env forced w).1.WellFormed := by
  unfold activate
  split
  · exact .rests (.inl rfl)
  · split
    · refine terminate_wellFormed ?_
      rintro e ⟨⟩
      rfl
    · split
      · exact .rests (.inl rfl)
      · split
        · exact .rests (.inl rfl)
        · unfold resume
          dsimp only
          split
          · next e pending hr =>
            refine terminate_wellFormed ?_
            rintro _ ⟨⟩
            exact h.received hr
          · next v p hr hp =>
            split
            · exact runStatements_wellFormed ..
            · next hn =>
              have hs := isSome_replaceFirst? (h.pending hp) v.literal.toList
              simp [hn] at hs
          · exact runStatements_wellFormed ..
          · exact runStatements_wellFormed ..

end Fiber

namespace Scheduler

open TileScript.Fiber Chain

variable {env : Environment} {s s' : Scheduler} {w : World}

/-- All live fibers wait for what is on their lines. -/
def WellFormed (s : Scheduler) : Prop :=
  ∀ (id : FiberId) (f : Fiber), s.fibers[id]? = some f → f.WellFormed

/-- A call is never refused for a lost line. -/
theorem spawn_not_lost {caller : Fiber} {q : CallRequest} {e : ScriptError}
    (h : s.spawn env caller q = .error e) : e.isLost = false := by
  obtain rfl | ⟨-, rfl⟩ | rfl := spawn_error h <;> rfl

namespace WellFormed

theorem insert (h : s.WellFormed) {id n : FiberId} {f : Fiber} (hf : f.WellFormed) :
    WellFormed { fibers := s.fibers.insert id f, nextId := n } := by
  intro a g hg
  rcases of_getElem?_insert hg with ⟨-, rfl⟩ | ⟨-, hg⟩
  · exact hf
  · exact h a g hg

theorem erase (h : s.WellFormed) (id : FiberId) :
    WellFormed { s with fibers := s.fibers.erase id } := by
  intro a g hg
  rw [getElem?_erase_fiber] at hg
  split at hg
  · cases hg
  · exact h a g hg

theorem deliver (h : s.WellFormed) (p c : FiberId) {r : ChildResult}
    (hr : ∀ e, r = .failed e → e.isLost = false) : (s.deliver p c r).2.WellFormed := by
  intro a g hg
  rw [getElem?_deliver] at hg
  split at hg
  · obtain ⟨f, hf, rfl⟩ := Option.map_eq_some_iff.1 hg
    exact (h a f hf).deliver hr
  · exact h a g hg

theorem finish (h : s.WellFormed) {t : Termination}
    (ht : ∀ e, t.ending = .failed e → e.isLost = false) : (s.finish w t).1.WellFormed := by
  unfold Scheduler.finish
  cases he : t.ending with
  | exited v =>
    cases t.parent with
    | none => exact h
    | some p => exact h.deliver p t.fiber (by simp)
  | failed e =>
    cases t.parent with
    | none => exact h
    | some p => exact h.deliver p t.fiber fun _ hr => ht _ (ChildResult.failed.inj hr ▸ he)

theorem step (h : s.WellFormed) (hl : Linked s) (env : Environment) (w : World) (task : Task) :
    (s.step env w task).1.WellFormed := by
  -- the step is opened, as `Stepped` leaves open which result a fiber hands over
  unfold Scheduler.step
  split
  · exact h
  · next f hf =>
    have herase := h.erase task.fiber
    have ha := activate_activated (hl.placed hf).toSound env task.forced w
    have ho := activate_wellFormed (h _ f hf) env task.forced w
    generalize f.activate env task.forced w = r at ha ho
    obtain ⟨o, g, w'⟩ := r
    dsimp only at ha ho ⊢
    cases ha with
    | skipped => exact herase.insert (h _ f hf)
    | yielded _ _ _ hi => exact herase.insert (.of_idle hi.pending hi.received)
    | called _ _ _ hg =>
      cases ho with
      | rests ho => simp at ho
      | called hq =>
        dsimp only
        split
        · next c s' hs =>
          obtain ⟨-, child, hi, -, -, rfl⟩ := spawn_ok hs
          refine (herase.insert (n := _) (.of_idle hi.pending hi.received)).insert ⟨?_, ?_⟩
          · intro p hp
            obtain ⟨q, hr, rfl⟩ := Option.map_eq_some_iff.1 hp
            exact hq q hr
          · intro e he
            cases hg.received.symm.trans he
        · next e hs =>
          refine herase.finish ?_
          rintro _ ⟨⟩
          exact spawn_not_lost hs
    | terminated =>
      cases ho with
      | rests ho => simp at ho
      | terminated ht => exact herase.finish ht

end WellFormed

theorem wellFormed_kept : Kept WellFormed where
  empty := by simp [WellFormed]
  attach {s s' w entity source authority id} h ha := by
    unfold attach at ha
    split_ifs at ha
    cases ha
    have hi := start_idle s.nextId entity authority source
    exact h.insert (.of_idle hi.pending hi.received)
  detach {s} id h := by
    unfold detach
    split
    · exact h
    · next f _ =>
      cases f.parent with
      | none => exact h.erase id
      | some p =>
        refine (h.erase id).deliver p id ?_
        rintro e ⟨⟩
        rfl
  step env w task hl h := h.step hl env w task

/-- The text of a chain up to a call is a part of the chain that is read as the segments up to the
call. And wherever a fiber occurs, what it awaits is a part of the line it waits on; so no
activation fails for a lost line, nor has a called function handed over such an error. -/
theorem resume_points_well_formed (h : Occurs s) :
    (∀ (statement : List Char) (i : Nat) (call : List Char),
      (segments statement)[i]? = some (.call call) →
      segments (upToSegment statement i) = (segments statement).take (i + 1) ∧
        upToSegment statement i <:+: statement) ∧
    ∀ (id : FiberId) (f : Fiber), s.fibers[id]? = some f →
      (∀ p, f.pending = some p → p.statement <:+: p.line) ∧
      (∀ e, f.received = some (.failed e) → e.isLost = false) ∧
      ∀ (env : Environment) (forced : Bool) (w : World),
        (∀ t e, (f.activate env forced w).1 = .terminated t → t.ending = .failed e →
          e.isLost = false) ∧
        ∀ (s' : Scheduler) (caller : Fiber) (q : CallRequest) (e : ScriptError),
          s'.spawn env caller q = .error e → e.isLost = false := by
  refine ⟨fun _ _ _ => segments_upToSegment, fun id f hf => ?_⟩
  have hw := wellFormed_kept.occurs h id f hf
  refine ⟨fun p => hw.pending, fun e => hw.received, fun env forced w => ⟨?_, ?_⟩⟩
  · intro t e ht he
    have ho := activate_wellFormed hw env forced w
    rw [ht] at ho
    cases ho with
    | rests ho => simp at ho
    | terminated h => exact h e he
  · exact fun _ _ _ _ => spawn_not_lost

section Example

/-- The fiber that waits for the item, in the middle of a tick. -/
theorem resume_points_well_formed_keyCalled : ∃ f p,
    keyCalled.fibers[0]? = some f ∧ f.pending = some p ∧
    p.statement = "$Item[0].turn()".toList ∧ p.statement <:+: p.line ∧
    segments (upToSegment p.statement 1) = (segments p.statement).take 2 := by
  have hx : keyCalled.fibers[0]?.bind (fun f => f.pending.map fun p => p.statement) =
      some "$Item[0].turn()".toList := by decide +kernel
  obtain ⟨f, hf, hx⟩ := Option.bind_eq_some_iff.1 hx
  obtain ⟨p, hp, hs⟩ := Option.map_eq_some_iff.1 hx
  have hw := resume_points_well_formed keyCalled_occurs
  refine ⟨f, p, hf, hp, hs, (hw.2 0 f hf).1 p hp, (hw.1 p.statement 1 "turn()".toList ?_).1⟩
  rw [hs]
  decide +kernel

end Example

end Scheduler

end TileScript
