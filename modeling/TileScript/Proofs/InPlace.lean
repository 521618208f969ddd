import TileScript.Proofs.Deeds
import TileScript.Proofs.ReturnChannel

/-! # Built-in functions in place

A world that is changed in place keeps what has been written when something fails behind it. Here
the operations of the world and the built-in functions are written so, read by read and write by
write. They come to the same as the functions that scripts call. So no failing call leaves anything
behind, and scripts can tell from the data whether a call has failed.
-/

namespace TileScript

open Text

/-- Work on a world in place. A failure keeps what has been written. -/
abbrev InPlace (ε α : Type) := EStateM ε World α

namespace InPlace

variable {ε ε' α β : Type}

def check : Except ε α → InPlace ε α
  | .ok a => pure a
  | .error e => throw e

def look (f : World → Except ε α) : InPlace ε α := do check (f (← get))

/-- Work whose failures are told in another way. -/
def mapError (f : ε → ε') (x : InPlace ε α) : InPlace ε' α := fun w =>
  match x w with
  | .ok a w' => .ok a w'
  | .error e w' => .error (f e) w'

section World

def sendCommand (id : EntityId) (c : Command) (sender : Int32) : InPlace WorldError Unit := do
  let e ← look (·.entity id)
  if e.owner ≠ sender then throw (.notAuthorized id sender e.owner)
  else modify (·.setEntity id (e.pushCommand c))

def appendLog (id : EntityId) (message : String) : InPlace WorldError Unit := do
  let e ← look (·.entity id)
  modify fun w => w.setEntity id (e.pushLog message w.config.maxLogLines)
  modify (·.emit (.logged id message))

def requestShake (id : EntityId) (seconds : Binary64) : InPlace WorldError Unit := do
  let _ ← look (·.entity id)
  modify (·.emit (.shaken id seconds))

def tryMove (id : EntityId) (target : TilePos) (solidCheck : Bool) : InPlace WorldError Bool := do
  let e ← look (·.entity id)
  if solidCheck && (← get).isSolid target then return false
  else
    modify (·.leaveTile id e.pos)
    modify (·.enterTile id target)
    modify (·.setEntity id { e with pos := target }.syncPosition)
    modify (·.emit (.moved id e.pos target))
    return true

def putItem (id : EntityId) (itemType : UInt32) : InPlace WorldError ItemId := do
  if ((← get).itemTypes.get? itemType).isNone then throw (.unknownItemType itemType)
  else
    let item : ItemId := ⟨(← get).nextItem⟩
    let e ← look (·.entity id)
    if !e.hasStorage then throw (.noStorage id)
    else
      match e.freeSlot? with
      | none => throw (.inventoryFull id)
      | some slot =>
        modify (·.setEntity id { e with storage := e.storage.set slot (some item) })
        modify fun w => { w with nextItem := w.nextItem + 1 }
        modify fun w => { w with items := w.items.insert item ⟨item, itemType⟩ }
        modify (·.emit (.inventoryChanged id item slot))
        return item

end World

/-- What a function that changes the world at its end, or not at all, comes to in place. -/
def outcome (w : World) : Except ε (α × World) → EStateM.Result ε World α
  | .ok (a, w') => .ok a w'
  | .error e => .error e w

section Outcome

variable {w : World}

theorem run_check_bind {x : Except ε α} {f : α → InPlace ε β} {g : α → Except ε (β × World)}
    (h : ∀ a, x = .ok a → (f a).run w = outcome w (g a)) :
    (check x >>= f).run w = outcome w (x >>= g) := by
  cases x with
  | error e => rfl
  | ok a => exact h a rfl

theorem run_look_bind {r : World → Except ε α} {f : α → InPlace ε β}
    {g : α → Except ε (β × World)} (h : ∀ a, r w = .ok a → (f a).run w = outcome w (g a)) :
    (look r >>= f).run w = outcome w (r w >>= g) :=
  run_check_bind h

theorem run_sendCommand (id : EntityId) (c : Command) (sender : Int32) :
    (sendCommand id c sender).run w = outcome w (do return ((), ← w.sendCommand id c sender)) := by
  rw [World.sendCommand, bind_assoc]
  refine run_look_bind fun e he => ?_
  rw [World.updateEntity, he]
  split <;> rfl

theorem run_appendLog (id : EntityId) (message : String) :
    (appendLog id message).run w = outcome w (do return ((), ← w.appendLog id message)) := by
  rw [World.appendLog, World.updateEntity, bind_assoc, bind_assoc]
  exact run_look_bind fun e _ => rfl

theorem run_requestShake (id : EntityId) (seconds : Binary64) :
    (requestShake id seconds).run w = outcome w (do return ((), ← w.shake id seconds)) := by
  rw [World.shake, bind_assoc]
  exact run_look_bind fun e _ => rfl

theorem run_tryMove (id : EntityId) (target : TilePos) (solidCheck : Bool) :
    (tryMove id target solidCheck).run w = outcome w (w.tryMove id target solidCheck) := by
  refine run_look_bind fun e _ => ?_
  simp only [EStateM.run_bind, EStateM.run_get]
  split <;> rfl

theorem run_putItem (id : EntityId) (itemType : UInt32) :
    (putItem id itemType).run w = outcome w (w.giveItem id itemType) := by
  unfold putItem World.giveItem
  simp only [EStateM.run_bind (x := get), EStateM.run_get]
  split
  · rfl
  · simp only [EStateM.run_bind (x := get), EStateM.run_get]
    refine run_look_bind fun e _ => ?_
    split
    · rfl
    · cases e.freeSlot? <;> rfl

/-- Nothing can fail behind the last operation. -/
theorem run_mapError_bind {x : InPlace ε α} {y : Except ε (α × World)}
    (hx : x.run w = outcome w y) (f : ε → ε') (r : α → β) :
    (x.mapError f >>= fun a => pure (r a)).run w =
      outcome w (match y with
        | .ok (a, w') => .ok (r a, w')
        | .error e => .error (f e)) := by
  have hm : (x.mapError f).run w =
      match x.run w with
      | .ok a w' => .ok a w'
      | .error e w' => .error (f e) w' := rfl
  rw [EStateM.run_bind, hm, hx]
  cases y <;> rfl

end Outcome

/-- A built-in function, read by read and write by write. -/
abbrev Program := SystemCall → InPlace Sentinel SystemReturn

def orMissing (x : InPlace WorldError α) : InPlace Sentinel α := x.mapError fun _ => .nullReference

namespace Program

def log : Program := fun call => do
  if call.accessor ≠ .none then throw .unknownFunction
  else
    check (Builtin.expectParams call 1)
    let v ← check (Builtin.param call 0)
    orMissing (appendLog call.entity v.display)
    return .done

def exit : Program := fun call =>
  if call.accessor ≠ .none then throw .unknownFunction
  else if 1 < call.params.length then throw (.wrongArity 1)
  else return { data := call.params.head?.map Value.literal, exit := true }

/-- What a script is told when its command is refused. -/
def refusal : WorldError → Sentinel
  | .notAuthorized _ _ _ => .custom "Invalid authentication"
  | _ => .nullReference

def stepSelf (call : SystemCall) (index : Int64) : InPlace Sentinel SystemReturn :=
  match Direction.ofIndex? index with
  | none => throw (.custom ("Invalid direction " ++ index.toInt.repr))
  | some d => do
    (sendCommand call.entity (.move d) call.authority).mapError refusal
    return .pause

def move : Program := fun call =>
  match call.accessor with
  | .none => do
    check (Builtin.expectParams call 1)
    stepSelf call (← check (Builtin.intParam call 0))
  | .authority => do
    check (Builtin.expectParams call 4)
    let id ← look (Builtin.entityParam call · 0)
    let x ← check (Builtin.coordinateParam call 1)
    let y ← check (Builtin.coordinateParam call 2)
    let z ← check (Builtin.coordinateParam call 3)
    let _ ← orMissing (tryMove id ⟨x, y, z⟩ true)
    return .done
  | .target _ => throw .notImplemented
  | .items => throw .unknownFunction

def step (d : Direction) : Program := fun call => do
  check (Builtin.expectParams call 0)
  move { call with params := [.int d.index] }

def get : Program := fun call =>
  match call.accessor with
  | .none => do
    check (Builtin.expectParams call 0)
    let me ← look fun w => Builtin.orMissing (w.entity call.entity)
    match ← look fun w => .ok (w.entityAt? (me.pos.step me.direction)) with
    | some id => return .value (.entity id)
    | none => throw .nullReference
  | .authority => do
    check (Builtin.expectParams call 1)
    return .value (.entity (← look (Builtin.entityParam call · 0)))
  | .items => do
    check (Builtin.expectParams call 1)
    let slot ← check (Builtin.intParam call 0)
    let me ← look fun w => Builtin.orMissing (w.entity call.entity)
    match (toNat64? slot.toInt).bind me.itemInSlot? with
    | some item => return .value (.item item)
    | none => throw (.resource ("Item slot " ++ slot.toInt.repr ++ " not found"))
  | .target _ => throw .unknownFunction

def sleep : Program := fun call => do
  if call.accessor ≠ .none then throw .unknownFunction
  else
    check (Builtin.expectParams call 1)
    let n := (← check (Builtin.intParam call 0)).toInt
    if n < 0 ∨ 0x80000000 ≤ n then throw (.custom ("Invalid sleep duration " ++ n.repr))
    else if n = 0 then return .pause
    else return { cooldown := n }

/-- What a script is told when an item cannot be given. -/
def withheld : WorldError → Sentinel
  | .inventoryFull e => .resource (WorldError.inventoryFull e).message
  | .noStorage e => .resource (WorldError.noStorage e).message
  | _ => .nullReference

def giveItem : Program := fun call => do
  if call.accessor ≠ .authority then throw .unknownFunction
  else
    check (Builtin.expectParams call 2)
    let id ← look (Builtin.entityParam call · 0)
    match toUInt32? (← check (Builtin.intParam call 1)).toInt with
    | none => throw .nullReference
    | some itemType =>
      let item ← (putItem id itemType).mapError withheld
      return .value (.item item)

def shake : Program := fun call => do
  if call.accessor ≠ .authority then throw .unknownFunction
  else
    check (Builtin.expectParams call 2)
    let id ← look (Builtin.entityParam call · 0)
    let s ← check (Builtin.seconds (← check (Builtin.param call 1)))
    orMissing (requestShake id s)
    return .done

/-- The built-in functions by name, in place. -/
def all : List (String × Program) :=
  [("log", log), ("exit", exit), ("move", move), ("up", step .up), ("down", step .down),
    ("left", step .left), ("right", step .right), ("get", get), ("sleep", sleep),
    ("giveItem", giveItem), ("shake", shake)]

/-- In place, the program does what the function does, and where it fails it has written nothing. -/
def Runs (p : Program) (b : Builtin) : Prop :=
  ∀ call w, (p call).run w = outcome w (b call w)

theorem log_runs : log.Runs Builtin.log := by
  intro call w
  simp only [log, Builtin.log]
  split
  · rfl
  · refine run_check_bind fun _ _ => run_check_bind fun v _ => ?_
    refine (run_mapError_bind (run_appendLog ..) _ _).trans ?_
    cases w.appendLog call.entity v.display <;> rfl

theorem exit_runs : exit.Runs Builtin.exit := by
  intro call w
  simp only [exit, Builtin.exit]
  split
  · rfl
  · split <;> rfl

theorem run_stepSelf (call : SystemCall) (w : World) (index : Int64) :
    (stepSelf call index).run w = outcome w (Builtin.stepSelf call w index) := by
  unfold stepSelf Builtin.stepSelf
  cases Direction.ofIndex? index with
  | none => rfl
  | some d =>
    refine (run_mapError_bind (run_sendCommand ..) _ _).trans ?_
    dsimp only
    rcases w.sendCommand call.entity (.move d) call.authority with e | _
    · cases e <;> rfl
    · rfl

theorem move_runs : move.Runs Builtin.move := by
  intro call w
  unfold move Builtin.move
  cases call.accessor with
  | none => exact run_check_bind fun _ _ => run_check_bind fun n _ => run_stepSelf call w n
  | authority =>
    refine run_check_bind fun _ _ => run_look_bind fun id _ => run_check_bind fun x _ =>
      run_check_bind fun y _ => run_check_bind fun z _ => ?_
    refine (run_mapError_bind (run_tryMove ..) _ _).trans ?_
    dsimp only
    cases w.tryMove id ⟨x, y, z⟩ true <;> rfl
  | target v => rfl
  | items => rfl

theorem step_runs (d : Direction) : (step d).Runs (Builtin.step d) := fun _ _ =>
  run_check_bind fun _ _ => move_runs _ _

theorem get_runs : get.Runs Builtin.get := by
  intro call w
  unfold get Builtin.get
  cases call.accessor with
  | none =>
    refine run_check_bind fun _ _ => run_look_bind fun me _ => ?_
    refine (run_look_bind (g := fun x => match x with
      | some id => .ok (.value (.entity id), w)
      | none => .error .nullReference) fun x _ => ?_).trans ?_
    · cases x <;> rfl
    · rfl
  | authority => exact run_check_bind fun _ _ => run_look_bind fun id _ => rfl
  | items =>
    refine run_check_bind fun _ _ => run_check_bind fun slot _ => run_look_bind fun me _ => ?_
    cases (toNat64? slot.toInt).bind me.itemInSlot? <;> rfl
  | target v => rfl

theorem sleep_runs : sleep.Runs Builtin.sleep := by
  intro call w
  simp only [sleep, Builtin.sleep]
  split
  · rfl
  · refine run_check_bind fun _ _ => run_check_bind fun n _ => ?_
    split
    · rfl
    · split <;> rfl

theorem giveItem_runs : giveItem.Runs Builtin.giveItem := by
  intro call w
  simp only [giveItem, Builtin.giveItem]
  split
  · rfl
  · refine run_check_bind fun _ _ => run_look_bind fun id _ => run_check_bind fun n _ => ?_
    cases toUInt32? n.toInt with
    | none => rfl
    | some itemType =>
      refine (run_mapError_bind (run_putItem ..) _ _).trans ?_
      dsimp only
      rcases w.giveItem id itemType with e | _
      · cases e <;> rfl
      · rfl

theorem shake_runs : shake.Runs Builtin.shake := by
  intro call w
  simp only [shake, Builtin.shake]
  split
  · rfl
  · refine run_check_bind fun _ _ => run_look_bind fun id _ => run_check_bind fun v _ =>
      run_check_bind fun s _ => ?_
    refine (run_mapError_bind (run_requestShake ..) _ _).trans ?_
    cases w.shake id s <;> rfl

theorem exists_runs {name : String} {b : Builtin} (h : (name, b) ∈ Builtin.all) :
    ∃ p, (name, p) ∈ all ∧ p.Runs b := by
  simp only [Builtin.all, List.mem_cons, Prod.mk.injEq, List.not_mem_nil, or_false] at h
  rcases h with ⟨rfl, rfl⟩ | ⟨rfl, rfl⟩ | ⟨rfl, rfl⟩ | ⟨rfl, rfl⟩ | ⟨rfl, rfl⟩ | ⟨rfl, rfl⟩ |
    ⟨rfl, rfl⟩ | ⟨rfl, rfl⟩ | ⟨rfl, rfl⟩ | ⟨rfl, rfl⟩ | ⟨rfl, rfl⟩
  · exact ⟨log, by simp [all], log_runs⟩
  · exact ⟨exit, by simp [all], exit_runs⟩
  · exact ⟨move, by simp [all], move_runs⟩
  · exact ⟨step .up, by simp [all], step_runs .up⟩
  · exact ⟨step .down, by simp [all], step_runs .down⟩
  · exact ⟨step .left, by simp [all], step_runs .left⟩
  · exact ⟨step .right, by simp [all], step_runs .right⟩
  · exact ⟨get, by simp [all], get_runs⟩
  · exact ⟨sleep, by simp [all], sleep_runs⟩
  · exact ⟨giveItem, by simp [all], giveItem_runs⟩
  · exact ⟨shake, by simp [all], shake_runs⟩

end Program

end InPlace

namespace Builtin

/-- A call that succeeds hands back the literal of a value, or nothing. -/
inductive Answers : Except Sentinel (SystemReturn × World) → Prop where

  | failed {s : Sentinel} : Answers (.error s)

  | done {r : SystemReturn} {w : World} {v : Option Value} : r.data = v.map Value.literal →
      Answers (.ok (r, w))

namespace Answers

variable {α : Type} {w : World}

theorem bind {x : Except Sentinel α} {f : α → Except Sentinel (SystemReturn × World)}
    (h : ∀ a, Answers (f a)) : Answers (x >>= f) := by
  cases x with
  | error s => exact .failed
  | ok a => exact h a

theorem nothing {r : SystemReturn} (h : r.data = none) : Answers (.ok (r, w)) := .done (v := none) h

theorem value (v : Value) : Answers (.ok (.value v, w)) := .done (v := some v) rfl

/-- Scripts cannot take the answer of a call that succeeds for a failure. -/
theorem decode?_eq_none {r : SystemReturn} (h : Answers (.ok (r, w))) :
    r.data.bind Sentinel.decode? = none := by
  cases h with
  | done hd =>
    rw [hd]
    next v =>
    cases v with
    | none => rfl
    | some v => exact Sentinel.decode?_literal v

end Answers

theorem log_answers (call : SystemCall) (w : World) : Answers (log call w) := by
  simp only [log]
  split
  · exact .failed
  · exact .bind fun _ => .bind fun _ => .bind fun _ => .nothing rfl

theorem exit_answers (call : SystemCall) (w : World) : Answers (exit call w) := by
  unfold exit
  split
  · exact .failed
  · split
    · exact .failed
    · exact .done rfl

theorem stepSelf_answers (call : SystemCall) (w : World) (index : Int64) :
    Answers (stepSelf call w index) := by
  unfold stepSelf
  split
  · exact .failed
  · split
    · exact .nothing rfl
    · exact .failed
    · exact .failed

theorem move_answers (call : SystemCall) (w : World) : Answers (move call w) := by
  unfold move
  split
  · exact .bind fun _ => .bind fun n => stepSelf_answers call w n
  · exact .bind fun _ => .bind fun _ => .bind fun _ => .bind fun _ => .bind fun _ => .bind fun _ =>
      .nothing rfl
  · exact .failed
  · exact .failed

theorem step_answers (d : Direction) (call : SystemCall) (w : World) : Answers (step d call w) :=
  .bind fun _ => move_answers _ w

theorem get_answers (call : SystemCall) (w : World) : Answers (get call w) := by
  unfold get
  split
  · refine .bind fun _ => .bind fun me => ?_
    split
    · exact .value _
    · exact .failed
  · exact .bind fun _ => .bind fun id => .value (.entity id)
  · refine .bind fun _ => .bind fun slot => .bind fun me => ?_
    split
    · exact .value _
    · exact .failed
  · exact .failed

theorem sleep_answers (call : SystemCall) (w : World) : Answers (sleep call w) := by
  simp only [sleep]
  split
  · exact .failed
  · refine .bind fun _ => .bind fun n => ?_
    split
    · exact .failed
    · split <;> exact .nothing rfl

theorem giveItem_answers (call : SystemCall) (w : World) : Answers (giveItem call w) := by
  simp only [giveItem]
  split
  · exact .failed
  · refine .bind fun _ => .bind fun id => .bind fun n => ?_
    split
    · exact .failed
    · split
      · exact .value _
      · exact .failed
      · exact .failed
      · exact .failed

theorem shake_answers (call : SystemCall) (w : World) : Answers (shake call w) := by
  simp only [shake]
  split
  · exact .failed
  · exact .bind fun _ => .bind fun _ => .bind fun _ => .bind fun _ => .bind fun _ => .nothing rfl

theorem all_answer {p : String × Builtin} (h : p ∈ all) (call : SystemCall) (w : World) :
    Answers (p.2 call w) := by
  simp only [all, List.mem_cons, List.not_mem_nil, or_false] at h
  rcases h with rfl | rfl | rfl | rfl | rfl | rfl | rfl | rfl | rfl | rfl | rfl
  · exact log_answers call w
  · exact exit_answers call w
  · exact move_answers call w
  · exact step_answers .up call w
  · exact step_answers .down call w
  · exact step_answers .left call w
  · exact step_answers .right call w
  · exact get_answers call w
  · exact sleep_answers call w
  · exact giveItem_answers call w
  · exact shake_answers call w

end Builtin

namespace SystemTable

/-- A built-in function is a program that works in place, read by read and write by write. If its
data stands for a failure, then the program has failed with it, the world is as it was before, and
nothing else is asked for. The data of a call that succeeds never stands for a failure. -/
theorem builtins_atomic {name : String} {f : SystemFunction}
    (hf : SystemTable.builtins[name]? = some f) :
    ∃ p : InPlace.Program, (name, p) ∈ InPlace.Program.all ∧ ∀ call w,
      (∀ s, (f call w).1.data.bind Sentinel.decode? = some s →
        (p call).run w = .error s w ∧ (f call w).2 = w ∧ (f call w).1.exit = false ∧
          (f call w).1.cooldown = 0) ∧
      (∀ s w', (p call).run w = .error s w' →
        w' = w ∧ f call w = (.failure s, w) ∧ Sentinel.decode? s.encode = some s) ∧
      ∀ r w', (p call).run w = .ok r w' →
        f call w = (r, w') ∧ r.data.bind Sentinel.decode? = none := by
  obtain ⟨b, hb, rfl⟩ | hn := Builtin.of_getElem?_foldl hf
  · obtain ⟨p, hp, hr⟩ := InPlace.Program.exists_runs hb
    refine ⟨p, hp, fun call w => ?_⟩
    have ha : Builtin.Answers (b call w) := Builtin.all_answer hb call w
    rw [hr call w]
    unfold Builtin.toFunction
    generalize b call w = x at ha
    cases x with
    | error s =>
      simp only [InPlace.outcome, SystemReturn.failure, Option.bind_some, Sentinel.decode?_encode]
      refine ⟨?_, ?_, ?_⟩
      · rintro s' ⟨⟩
        simp
      · rintro s' w' ⟨⟩
        simp
      · rintro r w' ⟨⟩
    | ok x =>
      have hd := ha.decode?_eq_none
      refine ⟨?_, ?_, ?_⟩
      · intro s hs
        rw [hd] at hs
        cases hs
      · rintro s w' ⟨⟩
      · rintro r w' ⟨⟩
        exact ⟨rfl, hd⟩
  · simp at hn

section Example

/-- An entity without a free slot. -/
def fullWorld : World := { keyWorld with itemTypes := ⟨[{ id := 0, name := "Key" }]⟩ }

/-- A gift to that entity. -/
def giftCall : SystemCall where
  entity := ⟨0⟩
  authority := serverOwner
  accessor := .authority
  params := [.entity ⟨0⟩, .int 0]

/-- The script is told why, and no item has come into the world. -/
theorem builtins_atomic_full :
    SystemTable.builtins["giveItem"]? = some Builtin.giveItem.toFunction ∧
    Builtin.giveItem.toFunction giftCall fullWorld =
      (.failure (.resource "Inventory full"), fullWorld) := by
  have hg : SystemTable.builtins["giveItem"]? = some Builtin.giveItem.toFunction :=
    builtins_of_mem (by simp [Builtin.all])
  obtain ⟨p, -, hp⟩ := builtins_atomic hg
  obtain ⟨hdata, hfail, -⟩ := hp giftCall fullWorld
  have hs : (Builtin.giveItem.toFunction giftCall fullWorld).1.data.bind Sentinel.decode? =
      some (.resource "Inventory full") := by
    decide +kernel
  exact ⟨hg, (hfail _ _ (hdata _ hs).1).2.1⟩

end Example

end SystemTable

end TileScript
