import TileScript.Proofs.Steps
import TileScript.System.Builtin

/-! # Chains of callers

A caller has a smaller number than the fiber it calls, and numbers are never used twice. So the way
up from a fiber to its callers comes to an end, also over callers that are gone, and it only gets
shorter. A call is refused where the way up is as long as the limit, so no chain gets longer.
-/

namespace TileScript.Scheduler

open TileScript.Fiber

variable {s s' : Scheduler}

/-- The caller of a live fiber. -/
def parent? (s : Scheduler) (id : FiberId) : Option FiberId := s.fibers[id]?.bind (·.parent)

/-- The way up from a caller: its number, and from there on the way up from its own caller. A number
that is not live any more has none. -/
inductive Climbs (s : Scheduler) : Option FiberId → List FiberId → Prop where

  | stop : Climbs s none []

  | up {p : FiberId} {ids : List FiberId} : Climbs s (s.parent? p) ids →
      Climbs s (some p) (p :: ids)

theorem Climbs.unique {o : Option FiberId} {ids ids' : List FiberId} (h : s.Climbs o ids)
    (h' : s.Climbs o ids') : ids' = ids := by
  induction h generalizing ids' with
  | stop =>
    cases h'
    rfl
  | up _ ih =>
    cases h' with
    | up h' => rw [ih h']

/-- Callers have smaller numbers. -/
def Descending (s : Scheduler) : Prop := ∀ id p, s.parent? id = some p → p < id

theorem Linked.descending (h : Linked s) : s.Descending := by
  intro id p hp
  obtain ⟨f, hf, hfp⟩ := Option.bind_eq_some_iff.1 hp
  exact (h.placed hf).parent_lt hfp

theorem parent?_erase (id a : FiberId) :
    { s with fibers := s.fibers.erase id }.parent? a = if id = a then none else s.parent? a := by
  unfold parent?
  by_cases h : id = a <;> simp [h]

/-- Numbers get smaller on the way up. -/
theorem Descending.pairwise (h : s.Descending) {o : Option FiberId} {ids : List FiberId}
    (hc : s.Climbs o ids) :
    ids.Pairwise (· > ·) ∧ ∀ n, (∀ p, o = some p → p < n) → ∀ p ∈ ids, p < n := by
  induction hc with
  | stop => exact ⟨.nil, by simp⟩
  | @up p ids _ ih =>
    have hbelow := ih.2 p (h p)
    refine ⟨List.pairwise_cons.2 ⟨hbelow, ih.1⟩, fun n hn q hq => ?_⟩
    rcases List.mem_cons.1 hq with rfl | hq
    · exact hn q rfl
    · exact Nat.lt_trans (hbelow q hq) (hn p rfl)

/-- Where callers have smaller numbers the way up ends, and a bound above the first is enough. -/
theorem Descending.climbs (h : s.Descending) {n : Nat} {o : Option FiberId}
    (ho : ∀ p, o = some p → p < n) : ∃ ids, s.Climbs o ids ∧ ids.length = s.callers n o := by
  induction n generalizing o with
  | zero =>
    cases o with
    | none => exact ⟨[], .stop, rfl⟩
    | some p => exact absurd (ho p rfl) (Nat.not_lt_zero p)
  | succ n ih =>
    cases o with
    | none => exact ⟨[], .stop, rfl⟩
    | some p =>
      obtain ⟨ids, hc, hl⟩ := ih (o := s.parent? p) fun q hq =>
        Nat.lt_of_lt_of_le (h p q hq) (Nat.le_of_lt_succ (ho p rfl))
      refine ⟨p :: ids, .up hc, ?_⟩
      rw [List.length_cons, hl, callers, Nat.add_comm]
      rfl

/-- Any bound above the caller will do. -/
theorem Descending.callers_eq (h : s.Descending) {n m : Nat} {o : Option FiberId}
    (hn : ∀ p, o = some p → p < n) (hm : ∀ p, o = some p → p < m) :
    s.callers n o = s.callers m o := by
  obtain ⟨ids, hc, hl⟩ := h.climbs hn
  obtain ⟨ids', hc', hl'⟩ := h.climbs hm
  rw [← hl, ← hl', hc.unique hc']

/-- A way up gets shorter where callers are lost. -/
theorem Descending.callers_le (h : s'.Descending) {b n : Nat} {o : Option FiberId}
    (ho : ∀ p, o = some p → p < b)
    (hp : ∀ p < b, s'.parent? p = none ∨ s'.parent? p = s.parent? p) :
    s'.callers n o ≤ s.callers n o := by
  induction n generalizing o with
  | zero => cases o <;> exact Nat.le_refl _
  | succ n ih =>
    cases o with
    | none => exact Nat.le_refl _
    | some p =>
      have hpb := ho p rfl
      have hlt (q : FiberId) (hq : s'.parent? p = some q) : q < b := Nat.lt_trans (h p q hq) hpb
      apply Nat.add_le_add_left
      change s'.callers n (s'.parent? p) ≤ s.callers n (s.parent? p)
      rcases hp p hpb with hn | he
      · rw [hn]
        cases n <;> exact Nat.zero_le _
      · exact he ▸ ih hlt

/-- The length of every chain is bounded, that of a number that is not live being one. -/
def Shallow (n : Nat) (s : Scheduler) : Prop := ∀ id, 1 + s.callers id (s.parent? id) ≤ n

theorem chainLength_eq {id : FiberId} {f : Fiber} (h : Linked s) (hf : s.fibers[id]? = some f) :
    s.chainLength f = 1 + s.callers id (s.parent? id) := by
  rw [chainLength, (h.placed hf).id_eq, parent?, hf]
  rfl

theorem shallow_of_parent? {n : Nat} (h : s.Shallow n) (hd : s'.Descending)
    (hp : ∀ id, s'.parent? id = none ∨ s'.parent? id = s.parent? id) : s'.Shallow n := by
  intro id
  have hle := h id
  rcases hp id with hn | he
  · rw [hn]
    have : s'.callers id none = 0 := by cases id <;> rfl
    omega
  · have hup := hd.callers_le (n := id) (hd id) fun p _ => hp p
    rw [he] at hup ⊢
    omega

section Parents

variable (s) (id a : FiberId) (f : Fiber)

theorem parent?_insert :
    { s with fibers := s.fibers.insert id f }.parent? a =
      if id = a then f.parent else s.parent? a := by
  unfold parent?
  by_cases h : id = a <;> simp [h]

theorem parent?_retire (p : Option FiberId) (r : ChildResult) :
    (s.retire id p r).parent? a = if id = a then none else s.parent? a := by
  unfold parent?
  rw [getElem?_retire]
  split
  · rfl
  · split
    · cases s.fibers[a]? <;> rfl
    · rfl

end Parents

/-- A fiber that is not called by anybody, and a fiber that ends, make no chain longer. -/
theorem Shallow.change {n : Nat} (h : s.Shallow n) (hl : Linked s) (hc : Change s s')
    (hn : s'.parent? s.nextId = none) : s'.Shallow n := by
  apply shallow_of_parent? h (hl.change hc).descending
  intro a
  cases hc with
  | same => exact .inr rfl
  | start hi hid hp =>
    by_cases ha : s.nextId = a
    · exact .inl (ha ▸ hn)
    · exact .inr ((parent?_insert s _ a _).trans (if_neg ha))
  | @rest id f g hf he hid hp hi =>
    refine .inr ((parent?_insert s id a g).trans ?_)
    split
    · next ha => rw [hp, ← ha, parent?, hf]; rfl
    · rfl
  | call hf _ _ _ _ _ _ hcp =>
    have hne := Nat.ne_of_lt (hl.placed hf).id_lt
    rw [parent?, getElem?_insert_fiber, if_neg hne, getElem?_insert_fiber, if_pos rfl] at hn
    exact absurd (hcp.symm.trans hn) (by simp)
  | retire r hf =>
    rw [parent?_retire]
    split
    · exact .inl rfl
    · exact .inr rfl

/-- A call that is not refused makes no chain longer than the limit. -/
theorem Shallow.call {n : Nat} (h : s.Shallow n) (hl : Linked s) {env : Environment}
    {id : FiberId} {f g child : Fiber} {r : CallRequest} (hn : env.limits.maxCallDepth ≤ n)
    (hf : s.fibers[id]? = some f) (hid : g.id = id) (hp : g.parent = f.parent)
    (hs : Spawned env s id g r child) (hcp : child.parent = some id)
    (hl' : Linked {
      fibers := (s.fibers.insert s.nextId child).insert id (g.await s.nextId r.resume)
      nextId := s.nextId + 1 }) :
    Shallow n {
      fibers := (s.fibers.insert s.nextId child).insert id (g.await s.nextId r.resume)
      nextId := s.nextId + 1 } := by
  generalize hs' : ({
    fibers := (s.fibers.insert s.nextId child).insert id (g.await s.nextId r.resume)
    nextId := s.nextId + 1 } : Scheduler) = s' at hl'
  have hlt := (hl.placed hf).id_lt
  have hd := hl'.descending
  have hfp : s.parent? id = f.parent := by rw [parent?, hf]; rfl
  have hparent (a : FiberId) (ha : a ≠ s.nextId) : s'.parent? a = s.parent? a := by
    subst hs'
    unfold parent?
    by_cases hi : id = a
    · subst hi
      simpa [await, hf] using hp
    · simp [hi, ha.symm]
  have hchild : s'.parent? s.nextId = some id := by
    subst hs'
    rw [parent?, getElem?_insert_fiber, if_neg (Nat.ne_of_lt hlt), getElem?_insert_fiber,
      if_pos rfl]
    exact hcp
  intro a
  by_cases ha : a = s.nextId
  · subst ha
    -- the way up from the caller is the one that was measured, with the caller taken out
    have hle : s'.callers id (s'.parent? id) ≤
        callers { s with fibers := s.fibers.erase id } id (s'.parent? id) :=
      hd.callers_le (hd id) fun p hp => .inr (by
        rw [hparent p (Nat.ne_of_lt (Nat.lt_trans hp hlt)), parent?_erase,
          if_neg (Nat.ne_of_gt hp)])
    have hdepth := hs.depth
    rw [chainLength, hid, hp, ← hfp, ← hparent id (Nat.ne_of_lt hlt)] at hdepth
    have hsucc : s'.callers (id + 1) (some id) = 1 + s'.callers id (s'.parent? id) := rfl
    rw [hchild, hd.callers_eq (n := s.nextId) (m := id + 1) (by simpa using hlt) (by simp), hsucc]
    omega
  · have hle := h a
    have hold := hparent a ha
    have hup (p : FiberId) (hp : s'.parent? a = some p) : p < s.nextId := by
      rw [hold] at hp
      obtain ⟨k, hk, hkp⟩ := Option.bind_eq_some_iff.1 hp
      exact Nat.lt_trans ((hl.placed hk).parent_lt hkp) (hl.placed hk).id_lt
    have hle' := hd.callers_le (n := a) hup fun p hp => .inr (hparent p (Nat.ne_of_lt hp))
    rw [hold] at hle' ⊢
    omega

theorem spawned_parent {env : Environment} {id : FiberId} {g child : Fiber} {r : CallRequest}
    (h : Spawned env s id g r child) : child.parent = some id := by
  obtain ⟨source, -, rfl⟩ := h.loaded
  generalize hf : { Fiber.start s.nextId r.host r.authority source with parent := some id } = f
  have hp : f.parent = some id := by rw [← hf]
  clear hf
  generalize r.seeds = seeds
  induction seeds generalizing f with
  | nil => exact hp
  | cons x seeds ih => exact ih (f.seed x.1 x.2) hp

theorem Shallow.step {n : Nat} (h : s.Shallow n) (hl : Linked s) {env : Environment}
    (hn : env.limits.maxCallDepth ≤ n) (w : World) (task : Task) :
    Shallow n (s.step env w task).1 := by
  have hc := step_change hl env w task
  have hs := step_stepped hl env w task
  have hl' := hl.change hc
  have hnew : s.parent? s.nextId = none := by
    rw [parent?]
    cases hx : s.fibers[s.nextId]? with
    | none => rfl
    | some f => exact absurd (hl.placed hx).id_lt (Nat.lt_irrefl _)
  generalize (s.step env w task).1 = s' at hc hs hl'
  generalize (s.step env w task).2.2 = tasks at hs
  cases hs with
  | gone => exact h
  | @rest f g o w' hf hx ho =>
    refine h.change hl hc ?_
    rw [parent?_insert, if_neg (Nat.ne_of_lt (hl.placed hf).id_lt), hnew]
  | @call f g child r w' hf hx hsp =>
    have ha := activate_activated (hl.placed hf).toSound env task.forced w
    rw [hx] at ha
    cases ha with
    | called he hid hp hg =>
      exact h.call hl hn hf (hid.trans (hl.placed hf).id_eq) hp hsp (spawned_parent hsp) hl'
  | @retire f r hf ho =>
    refine h.change hl hc ?_
    rw [parent?_retire, hnew]
    split <;> rfl

/-- The schedulers between operations, when all ticks have the same limits. -/
inductive ReachableUnder (limits : Limits) : Scheduler → Prop where

  | empty : ReachableUnder limits {}

  | attach {s s' : Scheduler} {w : World} {entity : EntityId} {source : String} {authority : Int32}
      {id : FiberId} : ReachableUnder limits s → s.attach w entity source authority = .ok (id, s') →
      ReachableUnder limits s'

  | detach {s : Scheduler} (id : FiberId) : ReachableUnder limits s →
      ReachableUnder limits (s.detach id).2

  | tick {s s' : Scheduler} {env : Environment} {steps : Nat} {w w' : World} :
      ReachableUnder limits s → env.limits = limits → s.tick env steps w = some (s', w') →
      ReachableUnder limits s'

/-- A scheduler between operations or anywhere in the work of a tick, under the same limits. -/
inductive OccursUnder (limits : Limits) : Scheduler → Prop where

  | between {s : Scheduler} : ReachableUnder limits s → OccursUnder limits s

  | within {env : Environment} {s₀ s : Scheduler} {w₀ w : World} {ids : List FiberId}
      {tasks : List Task} : ReachableUnder limits s₀ → env.limits = limits →
      AtWork env s₀ w₀ ids tasks s w → OccursUnder limits s

section Limits

variable {limits : Limits}

theorem AtWork.shallow {env : Environment} {s₀ : Scheduler} {w₀ w : World} {ids : List FiberId}
    {tasks : List Task} {n : Nat} (h : AtWork env s₀ w₀ ids tasks s w) (hl : Linked s₀)
    (hs : s₀.Shallow n) (hn : env.limits.maxCallDepth ≤ n) : s.Shallow n := by
  induction h with
  | enter => exact hs
  | next _ ih => exact ih
  | @step ids task tasks s w h ih => exact ih.step (h.linked hl) hn w task

theorem ReachableUnder.reachable (h : ReachableUnder limits s) : Reachable s := by
  induction h with
  | empty => exact .empty
  | attach _ ha ih => exact ih.attach ha
  | detach id _ ih => exact ih.detach id
  | tick _ _ ht ih => exact ih.tick ht

theorem shallow_empty {n : Nat} (hn : 1 ≤ n) : Shallow n {} := by
  intro id
  have : callers {} id (parent? {} id) = 0 := by
    have : parent? {} id = none := by simp [parent?]
    rw [this]
    cases id <;> rfl
  omega

@[simp] theorem nextId_detach (s : Scheduler) (id : FiberId) :
    (s.detach id).2.nextId = s.nextId := by
  unfold Scheduler.detach
  split
  · rfl
  · split <;> simp

theorem ReachableUnder.shallow (h : ReachableUnder limits s) :
    s.Shallow (max 1 limits.maxCallDepth) := by
  induction h with
  | empty => exact shallow_empty (Nat.le_max_left _ _)
  | @attach s s' w entity source authority id h ha ih =>
    have hl := h.reachable.linked
    refine ih.change hl (attach_change ha) ?_
    unfold Scheduler.attach at ha
    split_ifs at ha
    cases ha
    simp [parent?, Fiber.start]
  | @detach s id h ih =>
    have hl := h.reachable.linked
    refine ih.change hl (detach_change s id) ?_
    rw [parent?, Option.bind_eq_none_iff]
    intro f hf
    have hlt := ((hl.change (detach_change s id)).placed hf).id_lt
    rw [nextId_detach] at hlt
    exact absurd hlt (Nat.lt_irrefl _)
  | tick h hn ht ih =>
    exact (AtWork.of_tick ht).shallow h.reachable.linked ih (hn ▸ Nat.le_max_right _ _)

theorem OccursUnder.linked (h : OccursUnder limits s) : Linked s := by
  cases h with
  | between h => exact h.reachable.linked
  | within h₀ _ h => exact h.linked h₀.reachable.linked

theorem OccursUnder.shallow (h : OccursUnder limits s) :
    s.Shallow (max 1 limits.maxCallDepth) := by
  cases h with
  | between h => exact h.shallow
  | within h₀ hn h =>
    exact h.shallow h₀.reachable.linked h₀.shallow (hn ▸ Nat.le_max_right _ _)

end Limits

/-- What holds of the chain of callers of a live fiber. -/
structure InChain (limits : Limits) (s : Scheduler) (id : FiberId) (f : Fiber) : Prop where
  id_eq : f.id = id
  id_lt : id < s.nextId
  parent_lt : ∀ p, f.parent = some p → p < id
  /-- There is one way up, through smaller and smaller numbers, and it is found also while the fiber
  itself is taken out. -/
  climbs : ∃ ids, s.Climbs f.parent ids ∧
    { s with fibers := s.fibers.erase id }.Climbs f.parent ids ∧
    (∀ ids', s.Climbs f.parent ids' → ids' = ids) ∧ (id :: ids).Pairwise (· > ·) ∧
    s.chainLength f = (id :: ids).length
  bounded : s.chainLength f ≤ max 1 limits.maxCallDepth

/-- Above a number that is not on the way up, nothing matters. -/
theorem Climbs.erase {o : Option FiberId} {ids : List FiberId} {id : FiberId} (h : s.Climbs o ids)
    (hid : id ∉ ids) : { s with fibers := s.fibers.erase id }.Climbs o ids := by
  induction h with
  | stop => exact .stop
  | @up p ids _ ih =>
    obtain ⟨hp, hids⟩ : id ≠ p ∧ id ∉ ids := by simpa using hid
    have hup := ih hids
    rw [← (parent?_erase id p).trans (if_neg hp)] at hup
    exact .up hup

theorem Linked.inChain {limits : Limits} (h : Linked s)
    (hs : s.Shallow (max 1 limits.maxCallDepth)) {id : FiberId} {f : Fiber}
    (hf : s.fibers[id]? = some f) : InChain limits s id f where
  id_eq := (h.placed hf).id_eq
  id_lt := (h.placed hf).id_lt
  parent_lt _ hp := (h.placed hf).parent_lt hp
  climbs := by
    have hp (p : FiberId) (hp : f.parent = some p) : p < id := (h.placed hf).parent_lt hp
    obtain ⟨ids, hc, hl⟩ := h.descending.climbs hp
    obtain ⟨hd, hbelow⟩ := h.descending.pairwise hc
    have hb := hbelow id hp
    refine ⟨ids, hc, hc.erase fun hid => Nat.lt_irrefl _ (hb id hid), fun ids' => hc.unique,
      List.pairwise_cons.2 ⟨hb, hd⟩, ?_⟩
    rw [chainLength, (h.placed hf).id_eq, ← hl, List.length_cons, Nat.add_comm]
  bounded := by
    rw [chainLength_eq h hf]
    exact hs id

/-- A number that comes to life was not used up. -/
theorem Change.of_born (hc : Change s s') {c : FiberId} {g : Fiber} (hn : s.fibers[c]? = none)
    (hg : s'.fibers[c]? = some g) : s.nextId ≤ c := by
  apply Nat.le_of_not_lt
  intro hlt
  simp [(hc.dead hn hlt).1] at hg

/-- A live fiber has a number below the next one, a caller with a smaller number, and a chain of
callers that is not longer than the limit, whatever fibers of it have been taken away. A number
comes to life once. -/
theorem call_chains_bounded {limits : Limits} (h : OccursUnder limits s) :
    (∀ {id : FiberId} {f : Fiber}, s.fibers[id]? = some f → InChain limits s id f) ∧
    ∀ {t u : Scheduler} {c : FiberId} {g : Fiber}, Relation.ReflTransGen Move s t → Move t u →
      t.fibers[c]? = none → u.fibers[c]? = some g → s.nextId ≤ c ∧ s.fibers[c]? = none := by
  have hl := h.linked
  refine ⟨hl.inChain h.shallow, fun {t u c g} hm htu hn hg => ?_⟩
  have hle : s.nextId ≤ c := by
    apply Nat.le_of_not_lt
    intro hlt
    have hborn := (htu.change (hl.moves hm)).of_born hn hg
    have hmono : s.nextId ≤ t.nextId := by
      clear hn hg htu hborn
      induction hm with
      | refl => exact Nat.le_refl _
      | tail hms hm ih => exact Nat.le_trans ih (hm.change (hl.moves hms)).nextId_le
    exact absurd (Nat.le_trans hmono hborn) (Nat.not_le.2 hlt)
  refine ⟨hle, ?_⟩
  cases hc : s.fibers[c]? with
  | none => rfl
  | some f => exact absurd (hl.placed hc).id_lt (Nat.not_lt.2 hle)

section Example

/-- One function of the item calls the other, which sleeps. -/
def chainEnvironment : Environment where
  functions := ⟨[
    { id := 0, category := .item, owner := "key", name := "turn", parameterCount := 0 },
    { id := 1, category := .item, owner := "key", name := "wait", parameterCount := 0 }]⟩
  typeFunctions := { item := {(0, [0, 1])} }
  systems := .builtins
  source := {
    list := fun _ => .ok ["key.turn", "key.wait"]
    load? := fun _ name => some (if name = "key.turn" then "_item.wait()" else "sleep(5)") }
  tick := 1

/-- Of three fibers in a chain the middle one is taken away, and the chain of the last gets
shorter. -/
theorem call_chains_bounded_detached : ∃ s w f,
    keyStart.tick chainEnvironment 9 keyWorld = some (s, w) ∧ (s.detach 1).2.fibers[2]? = some f ∧
    f.parent = some 1 ∧ s.chainLength f = 3 ∧ (s.detach 1).2.chainLength f = 2 ∧
    InChain {} (s.detach 1).2 2 f := by
  have hx : (keyStart.tick chainEnvironment 9 keyWorld).bind (fun x =>
      (x.1.detach 1).2.fibers[2]?.map fun f =>
        (f.parent, x.1.chainLength f, (x.1.detach 1).2.chainLength f)) = some (some 1, 3, 2) := by
    decide +kernel
  obtain ⟨⟨s, w⟩, ht, hx⟩ := Option.bind_eq_some_iff.1 hx
  obtain ⟨f, hf, hx⟩ := Option.map_eq_some_iff.1 hx
  simp only [Prod.mk.injEq] at hx
  have ha : attach {} keyWorld ⟨0⟩ "var x = $Item[0].turn()" 0 = .ok (0, keyStart) := rfl
  have hr : ReachableUnder {} s := (ReachableUnder.empty.attach ha).tick rfl ht
  exact ⟨s, w, f, ht, hf, hx.1, hx.2.1, hx.2.2,
    (call_chains_bounded (.between (hr.detach 1))).1 hf⟩

end Example

end TileScript.Scheduler
