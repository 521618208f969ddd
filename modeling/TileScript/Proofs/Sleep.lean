import TileScript.Proofs.Exclusion
import TileScript.Proofs.Joining
import TileScript.Proofs.Replay
import TileScript.Proofs.ReturnChannel

/-! # Falling asleep

A line that calls `sleep` ends its activation. The entity gets a cooldown of as many ticks as were
asked for, up to the most that the world allows, and the script is to go on behind the line. In each
turn of the entities a cooldown runs down by one, and no entity meddles with that of another one.
-/

namespace TileScript

open Text World

namespace World

variable {w w' : World} {own : EntityId} {m : Nat}

/-- An entity has `m` ticks of cooldown left and no commands, if it is there. -/
def Cools (w : World) (own : EntityId) (m : Nat) : Prop :=
  ∀ g, w.gate? own = some g → g = ⟨m, []⟩

theorem Cools.of_eq (h : w.Cools own m) (hg : w'.gate? own = w.gate? own) : w'.Cools own m := by
  intro g hw
  exact h g (hg ▸ hw)

theorem Cools.elsewhere {id : EntityId} (h : w.Cools own m) (he : Elsewhere id w w')
    (hne : own ≠ id) : w'.Cools own m :=
  h.of_eq (he.others hne)

theorem executeCommand_elsewhere {id : EntityId} {e e' : Entity} (h : w.entity? id = some e')
    (c : Command) : Elsewhere id w (w.executeCommand id e c) := by
  cases c with
  | move d =>
    have hset : Elsewhere id w (w.setEntity id { e with direction := d }) := .setEntity h
    unfold executeCommand
    dsimp only
    split
    · next moved hm =>
      have hmove := hset.trans (.of_eq (tryMove_gate? hm))
      split
      · next cooled hc => exact hmove.trans (updateEntity_elsewhere hc)
      · exact hmove
    · exact hset
    · exact hset

/-- The turn of an entity concerns its own gate only. -/
theorem tickEntity_elsewhere (w : World) (id : EntityId) : Elsewhere id w (w.tickEntity id) := by
  unfold tickEntity
  split
  · exact .of_eq rfl
  · next e he =>
    split
    · exact .setEntity he
    · split
      · exact .of_eq rfl
      · exact executeCommand_elsewhere he _

theorem tickEntity_cools (h : w.Cools own m) : (w.tickEntity own).Cools own (m - 1) := by
  unfold tickEntity
  split
  · next he =>
    intro g hg
    simp [gate?, he] at hg
  · next e he =>
    obtain ⟨rfl, hq⟩ : e.cooldown = m ∧ e.commands = [] := by
      simpa [Entity.gate] using h e.gate (gate?_of_entity? he)
    split
    · intro g hg
      rw [gate?_setEntity, Function.update_self] at hg
      simp [← Option.some.inj hg, Entity.gate, hq]
    · next hm =>
      rw [hq]
      intro g hg
      rw [h g hg]
      simp [Nat.eq_zero_of_not_pos hm]

theorem foldl_tickEntity_cools {ids : List EntityId} (hn : ids.Nodup) (h : w.Cools own m) :
    (ids.foldl tickEntity w).Cools own (if own ∈ ids then m - 1 else m) := by
  induction ids generalizing w m with
  | nil => simpa using h
  | cons id ids ih =>
    obtain ⟨hid, hn⟩ := List.nodup_cons.1 hn
    rw [List.foldl_cons]
    by_cases ho : own = id
    · rw [← ho] at hid ⊢
      simpa [hid] using ih hn (tickEntity_cools h)
    · simpa [ho] using ih hn (h.elsewhere (tickEntity_elsewhere w id) ho)

theorem live_foldl_tickEntity (ids : List EntityId) (w : World) (own : EntityId) :
    ((ids.foldl tickEntity w).gate? own).isSome = (w.gate? own).isSome := by
  induction ids generalizing w with
  | nil => rfl
  | cons id ids ih =>
    have he := tickEntity_elsewhere w id
    rw [List.foldl_cons, ih]
    by_cases ho : own = id
    · exact ho ▸ he.live
    · rw [he.others ho]

/-- In the turn of the entities a cooldown runs down by one. -/
theorem tickEntities_cools (h : w.Cools own m) : w.tickEntities.Cools own (m - 1) := by
  intro g hg
  have hlive : (w.gate? own).isSome := by
    rw [← live_foldl_tickEntity w.entities.keys]
    exact Option.isSome_of_eq_some hg
  have ho : own ∈ w.entities.keys :=
    Std.ExtTreeMap.mem_keys.2 (Std.ExtTreeMap.isSome_getElem?_iff_mem.1
      (by simpa [gate?, entity?] using hlive))
  have hf := foldl_tickEntity_cools (Std.ExtTreeMap.nodup_keys (t := w.entities)) h
  rw [if_pos ho] at hf
  exact hf g hg

end World

theorem SystemTable.builtins_sleep :
    SystemTable.builtins["sleep"]? = some Builtin.sleep.toFunction :=
  builtins_of_mem (by simp [Builtin.all])

/-- What `sleep` asks for: a pause, and a cooldown if there are ticks to wait. -/
theorem Builtin.sleep_eq {call : SystemCall} {v : Value} {i : Int64} {n : Nat} (w : World)
    (ha : call.accessor = .none) (hp : call.params = [v]) (hv : v.toInt? = some i)
    (hi : i.toInt = n) (hn : n < 0x80000000) :
    sleep call w = .ok ({ cooldown := if n = 0 then -1 else n }, w) := by
  have hint : intParam call 0 = .ok i := by simp [intParam, param, hp, bind, Except.bind, hv]
  have hr : ¬ ((n : Int) < 0 ∨ 0x80000000 ≤ (n : Int)) := by omega
  simp only [sleep, ha, expectParams, hp, hint, bind, Except.bind, hi, hr]
  by_cases h₀ : n = 0
  · simp [h₀, SystemReturn.pause]
    rfl
  · simp [h₀]
    rfl

namespace Scope

variable {s : Scope} {v : Value} {i : Int64} {n : Nat} {e : Expr} {σ σ' : EvalState}

theorem systemCall_sleep (hv : v.toInt? = some i) (hi : i.toInt = n)
    (hn : n < 0x80000000) (hp : σ.pause = none) :
    (s.systemCall "sleep" Builtin.sleep.toFunction .none [v]).run σ =
      .ok none { σ with pause := some n } := by
  have hf : Builtin.sleep.toFunction {
      entity := s.entity, authority := s.authority, accessor := .none, params := [v] } σ.world =
        ({ cooldown := if n = 0 then -1 else n }, σ.world) := by
    rw [Builtin.toFunction, Builtin.sleep_eq σ.world rfl rfl hv hi hn]
  have hne : (if n = 0 then -1 else (n : Int)) ≠ 0 := by split <;> omega
  have hnat : (if n = 0 then -1 else (n : Int)).toNat = n := by split <;> omega
  have hpause : (Eval.requestPause n).run { σ with world := σ.world } =
      .ok () { σ with pause := some n } := by
    rw [Eval.requestPause, EStateM.run_modify, hp]
    rfl
  unfold systemCall
  simp only [EStateM.run_bind, Eval.run_world, hf, EStateM.run_modify, Option.bind_none,
    Bool.false_eq_true, if_false, if_pos hne, hnat, hpause]
  rfl

theorem invoke_sleep (hs : s.env.systems = .builtins) (hv : v.toInt? = some i) (hi : i.toInt = n)
    (hn : n < 0x80000000) (resume : Option ResumePoint) (hp : σ.pause = none) :
    (s.invoke none .none "sleep" [v] resume).run σ = .ok none { σ with pause := some n } := by
  unfold invoke
  simp only [EStateM.run_bind, Eval.run_world, functionCall?, hs, SystemTable.builtins_sleep,
    systemCall_sleep hv hi hn hp]

theorem evalChain_sleep (hs : s.env.systems = .builtins) (he : (s.eval e).run σ = .ok v σ')
    (hp : σ'.pause = none) (hv : v.toInt? = some i) (hi : i.toInt = n) (hn : n < 0x80000000)
    (wanted : Bool) (reach : List Char) :
    (s.evalChain wanted [.call "sleep" [e] reach]).run σ =
      .ok default { σ' with pause := some n } := by
  rw [evalChain, evalLinks, evalArguments, evalArguments]
  · simp only [EStateM.run_bind, he, EStateM.run_pure, invoke_sleep hs hv hi hn _ hp, evalLinks,
      Option.getD_none]
  · simp

end Scope

/-- A statement that only asks for `n` ticks of sleep, wherever its number comes from. -/
inductive Statement.Sleeps (s : Scope) (w : World) (n : Nat) : Statement → Prop where

  | call {chain reach : List Char} {e : Expr} {v : Value} {i : Int64} {σ : EvalState} :
      Link.parse chain = [.call "sleep" [e] reach] → (s.eval e).run { world := w } = .ok v σ →
      σ.pause = none → v.toInt? = some i → i.toInt = n → n < 0x80000000 → Sleeps s w n (.bare chain)

/-- Such a statement changes no gate. -/
theorem Statement.Sleeps.execute {s : Scope} {w : World} {n : Nat} {st : Statement}
    (h : st.Sleeps s w n) (hs : s.env.systems = .builtins) (f : Fiber) :
    ∃ w', (Fiber.execute s f st).run { world := w } = .ok f { world := w', pause := some n } ∧
      w'.gate? = w.gate? := by
  obtain ⟨hp, he, hpause, hv, hi, hn⟩ := h
  next chain reach e v i σ =>
  refine ⟨σ.world, ?_, ?_⟩
  · rw [Fiber.execute, hp, EStateM.run_bind, Scope.evalChain_sleep hs he hpause hv hi hn]
    rfl
  · have hl := Scope.eval_leaves (Scope.admits_restrained hs) e { world := w }
    rw [he] at hl
    cases hl with
    | ok hr => exact (hr.still hpause).2

section Literal

open Chain

variable (n : Nat)

/-- The text of a line that asks for `n` ticks of sleep. -/
def sleepText : List Char := "sleep(".toList ++ Nat.toDigits 10 n ++ [')']

theorem sleepText_eq : sleepText n = "sleep(".toList ++ Nat.toDigits 10 n ++ [')'] := rfl

theorem fragment_sleepText : Fragment ['.', ':'] (sleepText n) := by
  have hd : Closed [] (Nat.toDigits 10 n) :=
    .of_isFlat (by simpa using (toDigits_all n).2)
  have hname : Closed ['.', ':'] "sleep".toList := .of_isFlat (by decide)
  refine ⟨by simp [sleepText_eq], ?_, ?_⟩
  · apply trim_of_ends
    · rintro c ⟨⟩
      rfl
    · intro c hc
      rw [sleepText_eq, List.getLast?_concat] at hc
      obtain rfl : ')' = c := Option.some.inj hc
      rfl
  · simpa [sleepText_eq] using
      hname.append (.bracketed (o := '(') (c := ')') (by decide) (by decide) hd .nil)

theorem parse_sleepText (n : Nat) {i : Int64} (hi : i.toInt = n) : Link.parse (sleepText n) =
    [.call "sleep" [.chain [.word (Nat.toDigits 10 n)]] (upToSegment (sleepText n) 0)] := by
  have hf := fragment_sleepText n
  have hs : Value.Spells (.int i) (Nat.toDigits 10 n) := .nat hi
  have hq : Inert (Nat.toDigits 10 n) := by
    obtain ⟨hd, hflat⟩ := toDigits_all n
    exact ⟨Nesting.foldl_of_isFlat hflat, fun d k => uncut_of_isHarmless hd,
      fun d => unassigned_of_isHarmless hd⟩
  have hparams : splitParams (Nat.toDigits 10 n) = [Nat.toDigits 10 n] := by
    have hc : Closed [','] (Nat.toDigits 10 n) := by
      refine .of_isFlat (List.all_eq_true.2 fun c hc => ?_)
      have hf : Nesting.isFlat c = true := List.all_eq_true.1 (toDigits_all n).2 c hc
      have hm : c ≠ ',' := by
        rintro rfl
        cases Nat.isDigit_of_mem_toDigits (by decide) (by decide) hc
      simp [hf, hm]
    rw [splitParams, cutsParams_eq, splitWhere_uncut (hc.uncut_top rfl), List.map_singleton,
      hs.trim_eq]
    simp [hs.ne_nil]
  have hfrag : fragments (sleepText n) = [] ++ sleepText n :: [] := by
    rw [fragments, cutsChain_eq]
    exact splitWhere_uncut (hf.closed.uncut_top rfl)
  have hcall : Segment.ofFragment (sleepText n) = .call (sleepText n) :=
    Segment.ofFragment_call hf.trimmed (by simp [sleepText_eq]) (by simp [sleepText_eq])
  have hopen : '(' ∉ "sleep".toList := by decide
  have hsplit : splitCall? (sleepText n) = some ("sleep".toList, Nat.toDigits 10 n) :=
    splitCall?_eq hopen hf.trimmed
  rw [Link.parse_fragments hf.trimmed hf.nonempty hfrag, Link.read_call hcall hsplit, hparams,
    List.map_singleton, Expr.parse_literal hs hq]
  rfl

/-- The line `sleep(n)` asks for `n` ticks of sleep. -/
theorem Statement.sleeps_literal {n : Nat} (hn : n < 0x80000000) (s : Scope) (w : World) :
    (Statement.ofLine ("sleep(" ++ n.repr ++ ")").toList).Sleeps s w n := by
  obtain ⟨i, hi⟩ : ∃ i : Int64, i.toInt = n := ⟨.ofNat n, Int64.toInt_ofNat_of_lt (by omega)⟩
  have ht : ("sleep(" ++ n.repr ++ ")").toList = [] ++ sleepText n ++ [] := by
    simp [sleepText_eq]
  have ho : Ordinary (sleepText n) := {
    ne_nil := by simp [sleepText_eq]
    not_comment := rfl
    not_close := nofun
    not_otherwise := nofun
    not_declare := nofun
    not_if := nofun
    not_branch := nofun }
  have hcut : splitAssignment? (sleepText n) = none := by
    have hm : '=' ∉ sleepText n := by
      have hd : '=' ∉ Nat.toDigits 10 n := fun hm => by
        cases Nat.isDigit_of_mem_toDigits (by decide) (by decide) hm
      simp [sleepText_eq, hd]
    rw [splitAssignment?, cutAssignment?_of_not_mem hm]
    rfl
  rw [ht, ofLine_padded_bare rfl rfl (fragment_sleepText n).trimmed ho hcut]
  exact .call (parse_sleepText n hi) (s.eval_literal (.nat hi) rfl) rfl rfl hi hn

end Literal

namespace Loop

variable {env : Environment} {l k : Loop} {line : List Char} {n : Nat}

/-- The next round of `l` takes a line in the loop `k`, which is `l` itself or the script started
over. -/
inductive Takes (l : Loop) : Loop → List Char → Prop where

  | next {line : List Char} : l.fiber.cursor.line < l.fiber.lines.length →
      (l.resumed <|> l.fiber.lines[l.fiber.cursor.line]?) = some line → Takes l l line

  | again {line : List Char} : l.fiber.lines.length ≤ l.fiber.cursor.line → l.evaluated = true →
      l.resumed = none → l.fiber.lines[0]? = some line → Takes l l.again line

theorem Takes.step_eq (h : l.Takes k line) : l.step env = k.take env line := by
  cases h with
  | next hl hx => rw [step, if_neg (Nat.not_le.2 hl), look, hx]
  | again hl he hr hx =>
    have hne : l.fiber.lines.isEmpty = false := by
      cases hls : l.fiber.lines <;> simp [hls] at hx ⊢
    have hlook : (l.again.resumed <|> l.again.fiber.lines[l.again.fiber.cursor.line]?) =
        some line := by
      rw [show l.again.resumed = none from hr]
      exact hx
    rw [step, if_pos hl, he, hne, if_neg (by simp), look, hlook]

theorem Takes.line_lt (h : l.Takes k line) : k.fiber.cursor.line < k.fiber.lines.length := by
  cases h with
  | next hl _ => exact hl
  | again _ _ _ hx => exact (List.getElem?_eq_some_iff.1 hx).1

theorem Takes.world_eq (h : l.Takes k line) : k.world = l.world := by
  cases h with
  | next _ _ => rfl
  | again _ _ _ _ => rfl

/-- The next line of `l`, taken in `k`, asks for `n` ticks of sleep. -/
structure FallsAsleep (env : Environment) (l k : Loop) (n : Nat) : Prop where
  takes : ∃ line, l.Takes k line ∧
    (Statement.ofLine line).Sleeps (k.fiber.scope env line) k.world n
  active : k.fiber.cursor.isActive = true
  affordable : 0 < k.budget

/-- The fiber behind a line that puts it to sleep. -/
def asleep (k : Loop) : Fiber :=
  { k.fiber with cursor := k.fiber.cursor.advance, state := .sleeping }

theorem FallsAsleep.step_eq (h : l.FallsAsleep env k n) (henv : env.systems = .builtins) :
    ∃ w, l.step env = .done (k.trace ++ [k.fiber.cursor.line])
        (.yielded, k.asleep, k.asleep.coolDown n w) ∧ w.gate? = l.world.gate? := by
  obtain ⟨⟨line, ht, hs⟩, ha, hb⟩ := h
  obtain ⟨budget, hb⟩ := Nat.exists_eq_succ_of_ne_zero (Nat.ne_of_gt hb)
  obtain ⟨w, hx, hg⟩ := hs.execute henv { k.fiber with cursor := k.fiber.cursor.advance }
  refine ⟨w, ?_, ht.world_eq ▸ hg⟩
  rw [ht.step_eq, take]
  generalize Statement.ofLine line = st at hs hx
  cases hs with
  | call =>
    dsimp only
    rw [if_pos ha, evaluate, hb]
    dsimp only
    have hx : ((Fiber.execute ({ k.fiber with cursor := k.fiber.cursor.advance }.scope env line)
      { k.fiber with cursor := k.fiber.cursor.advance } _).run { world := k.world }) = _ := hx
    rw [hx]
    rfl

end Loop

namespace Fiber

open Loop

variable {env : Environment} {forced : Bool} {f : Fiber} {w : World} {n : Nat} {l k : Loop}

/-- A round that comes to an end is the last one of the activation. -/
theorem Sound.activate_of_done (hf : f.Sound)
    (h : f.byLines env env.limits.tokenBudget forced w n = .going l) {trace : List Nat}
    {out : Outcome × Fiber × World} (hs : l.step env = .done trace out) :
    f.activate env forced w = out := by
  obtain ⟨hi, ha⟩ := hf.inRange_of_going h
  have hfl : Follows env l (l.step env) := step_follows hi
  rw [hs] at hfl
  cases hfl with
  | done hr => rw [ha, hr]

theorem coolDown_config (f : Fiber) (ticks : Nat) (w : World) :
    (f.coolDown ticks w).config = w.config := by
  unfold coolDown
  split
  · rfl
  · split
    · next w' hw =>
      obtain ⟨e, he, rfl⟩ := updateEntity_ok hw
      rfl
    · rfl

/-- An entity that can act gets the cooldown it is asked for, up to the most there can be. -/
theorem coolDown_gate? {ticks : Nat} (hg : w.gate? f.entity = some ⟨0, []⟩) :
    (f.coolDown ticks w).gate? f.entity = some ⟨min ticks w.config.maxCooldown, []⟩ := by
  unfold coolDown
  by_cases ht : ticks = 0
  · simp [ht, hg]
  · obtain ⟨e, he, hge⟩ := Option.map_eq_some_iff.1 hg
    obtain ⟨hc, hq⟩ : e.cooldown = 0 ∧ e.commands = [] := by simpa [Entity.gate] using hge
    have hent : w.entity f.entity = .ok e := by
      unfold entity? at he
      rw [World.entity, he]
    have hcool : w.extendCooldown f.entity ticks =
        .ok (w.setEntity f.entity (e.extendCooldown ticks w.config.maxCooldown)) := by
      rw [extendCooldown, updateEntity, hent]
      rfl
    rw [if_neg ht, hcool, gate?_setEntity, Function.update_self]
    simp [Entity.gate, Entity.extendCooldown, hc, hq]

/-- A fiber that sleeps: it may run again when its entity can act, but not in the tick `t`. -/
structure Sleeping (f : Fiber) (t : Nat) : Prop extends Idle f where
  lastTick : f.lastTick = some t

/-- A line that puts a fiber to sleep ends its activation, and its entity cools down. -/
theorem Sound.activate_asleep (hf : f.Sound) (henv : env.systems = .builtins)
    (h : f.byLines env env.limits.tokenBudget forced w n = .going l) {ticks : Nat}
    (hs : l.FallsAsleep env k ticks) :
    k.asleep.Sleeping env.tick ∧ k.asleep.id = f.id ∧ k.asleep.entity = f.entity ∧
      ∃ w', f.activate env forced w = (.yielded, k.asleep, w') ∧
        w'.gate? f.entity = some ⟨min ticks w'.config.maxCooldown, []⟩ := by
  obtain ⟨w₁, hstep, hgates⟩ := hs.step_eq henv
  have ha : f.activate env forced w = (.yielded, k.asleep, k.asleep.coolDown ticks w₁) :=
    hf.activate_of_done h hstep
  have hact := activate_activated hf env forced w
  have hadm := activate_admission hf env forced w
  rw [ha] at hact hadm
  obtain ⟨hidle, hid⟩ : k.asleep.Idle ∧ k.asleep.id = f.id := by
    cases hact with
    | yielded _ hid _ hg => exact ⟨hg, hid⟩
  obtain ⟨hlast, hent⟩ : k.asleep.lastTick = some env.tick ∧ k.asleep.entity = f.entity := by
    generalize hr : (Outcome.yielded, k.asleep, k.asleep.coolDown ticks w₁) = r at hadm
    cases hadm with
    | refused _ => cases hr
    | orphaned _ _ => cases hr
    | admitted _ _ _ =>
      have hst := resume_stamped env
        { f with lastTick := some env.tick, state := .running, awaiting := none } w
      rw [← hr] at hst
      exact ⟨hst.lastTick, hst.entity⟩
  refine ⟨⟨hidle, hlast⟩, hid, hent, _, ha, ?_⟩
  obtain ⟨-, e, he, hc, hq⟩ := gate_of_going henv h
  have hg : w₁.gate? k.asleep.entity = some ⟨0, []⟩ := by
    rw [hgates, hent, gate?_of_entity? he, Entity.gate, hc, hq]
  rw [coolDown_config, ← hent, coolDown_gate? hg]

end Fiber

end TileScript
