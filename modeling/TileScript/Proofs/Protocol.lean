import TileScript.Proofs.Activation
import TileScript.Scheduler

/-! # The protocol of calls and returns

Every elementary change of a scheduler is one of five: nothing, a new fiber, a fiber back at rest, a
call, or the end of a fiber with its result handed up. Each of them keeps the fields of callers and
children in step, so no fiber ever waits for a child that is gone, and the result of a child reaches
its caller once.
-/

namespace TileScript.Scheduler

open TileScript.Fiber

section Lookup

variable (m : Std.ExtTreeMap FiberId Fiber) (k a : FiberId) (f : Fiber)

@[simp] theorem getElem?_insert_fiber : (m.insert k f)[a]? = if k = a then some f else m[a]? := by
  simp [Std.ExtTreeMap.getElem?_insert]

@[simp] theorem getElem?_erase_fiber : (m.erase k)[a]? = if k = a then none else m[a]? := by
  simp [Std.ExtTreeMap.getElem?_erase]

variable {m k a f} in
theorem of_getElem?_insert {g : Fiber} (h : (m.insert k f)[a]? = some g) :
    (k = a ∧ f = g) ∨ (k ≠ a ∧ m[a]? = some g) := by
  rw [getElem?_insert_fiber] at h
  split at h
  · next hk => exact Or.inl ⟨hk, Option.some.inj h⟩
  · next hk => exact Or.inr ⟨hk, h⟩

theorem insert_erase_fiber : (m.erase k).insert k f = m.insert k f := by
  apply Std.ExtTreeMap.ext_getElem?
  intro a
  by_cases h : k = a <;> simp [h]

theorem insert_insert_erase_fiber (g : Fiber) :
    ((m.erase k).insert a g).insert k f = (m.insert a g).insert k f := by
  apply Std.ExtTreeMap.ext_getElem?
  intro b
  by_cases h : k = b <;> simp [h]

theorem insert_self_fiber (h : m[k]? = some f) : m.insert k f = m := by
  apply Std.ExtTreeMap.ext_getElem?
  intro a
  by_cases ha : k = a
  · simp [← ha, h]
  · simp [ha]

end Lookup

/-- A scheduler without a fiber that has ended; its caller, if it waits for it, has the result. -/
def retire (s : Scheduler) (id : FiberId) (parent : Option FiberId) (r : ChildResult) : Scheduler :=
  let s := { s with fibers := s.fibers.erase id }
  match parent with
  | none => s
  | some p => (s.deliver p id r).2

variable {s s' : Scheduler}

theorem getElem?_deliver (p c a : FiberId) (r : ChildResult) :
    (s.deliver p c r).2.fibers[a]? =
      if a = p ∧ (s.fibers[p]?.bind (·.awaiting)) = some c then
        s.fibers[a]?.map (·.deliver r)
      else s.fibers[a]? := by
  unfold deliver
  cases hp : s.fibers[p]? with
  | none => simp
  | some f =>
    by_cases hc : f.awaiting = some c
    · by_cases ha : p = a
      · subst ha; simp [hc, hp]
      · simp [hc, ha, Ne.symm ha]
    · simp [hc]

@[simp] theorem nextId_deliver (p c : FiberId) (r : ChildResult) :
    (s.deliver p c r).2.nextId = s.nextId := by
  unfold deliver
  split
  · split <;> rfl
  · rfl

@[simp] theorem nextId_retire (id : FiberId) (parent : Option FiberId) (r : ChildResult) :
    (s.retire id parent r).nextId = s.nextId := by
  unfold retire
  cases parent <;> simp

/-- The fibers of a scheduler after one of them has ended. -/
theorem getElem?_retire (id a : FiberId) (parent : Option FiberId) (r : ChildResult) :
    (s.retire id parent r).fibers[a]? =
      if id = a then none
      else if parent = some a ∧ (s.fibers[a]?.bind (·.awaiting)) = some id then
        s.fibers[a]?.map (·.deliver r)
      else s.fibers[a]? := by
  unfold retire
  cases parent with
  | none => simp
  | some p =>
    simp only [getElem?_deliver, getElem?_erase_fiber]
    by_cases hi : id = a
    · by_cases hp : a = p <;> simp [hi, hp]
    · by_cases hp : a = p
      · subst hp; simp [hi]
      · simp [hi, hp, Ne.symm hp]

theorem of_getElem?_retire {id a : FiberId} {parent : Option FiberId} {r : ChildResult} {k : Fiber}
    (h : (s.retire id parent r).fibers[a]? = some k) :
    id ≠ a ∧ ∃ l, s.fibers[a]? = some l ∧
      ((parent = some a ∧ l.awaiting = some id ∧ k = l.deliver r) ∨
        (¬ (parent = some a ∧ l.awaiting = some id) ∧ k = l)) := by
  rw [getElem?_retire] at h
  split at h
  · cases h
  · next hne =>
    cases hl : s.fibers[a]? with
    | none => simp [hl] at h
    | some l =>
      simp only [hl, Option.bind_some, Option.map_some] at h
      split at h
      · next hc => exact ⟨hne, l, rfl, Or.inl ⟨hc.1, hc.2, (Option.some.inj h).symm⟩⟩
      · next hc => exact ⟨hne, l, rfl, Or.inr ⟨hc, (Option.some.inj h).symm⟩⟩

/-- The end of a fiber leaves the others in their places. -/
theorem links_of_retire {id a : FiberId} {parent : Option FiberId} {r : ChildResult} {k : Fiber}
    (h : (s.retire id parent r).fibers[a]? = some k) :
    id ≠ a ∧ ∃ l, s.fibers[a]? = some l ∧ k.id = l.id ∧ k.parent = l.parent ∧
      k.awaiting = l.awaiting := by
  obtain ⟨hne, l, hl, ⟨-, -, rfl⟩ | ⟨-, rfl⟩⟩ := of_getElem?_retire h
  · exact ⟨hne, l, hl, rfl, rfl, rfl⟩
  · exact ⟨hne, k, hl, rfl, rfl, rfl⟩

/-- One elementary change. -/
inductive Change (s : Scheduler) : Scheduler → Prop where

  | same : Change s s

  | start {f : Fiber} : f.Idle → f.id = s.nextId → f.parent = none →
      Change s { fibers := s.fibers.insert s.nextId f, nextId := s.nextId + 1 }

  | rest {id : FiberId} {f g : Fiber} : s.fibers[id]? = some f → f.enabled = true →
      g.id = f.id → g.parent = f.parent → g.Idle →
      Change s { s with fibers := s.fibers.insert id g }

  | call {id : FiberId} {f g child : Fiber} {r : CallRequest} : s.fibers[id]? = some f →
      f.enabled = true → g.id = f.id → g.parent = f.parent → g.Calling r →
      child.Idle → child.id = s.nextId → child.parent = some id →
      Change s {
        fibers := (s.fibers.insert s.nextId child).insert id (g.await s.nextId r.resume)
        nextId := s.nextId + 1 }

  | retire {id : FiberId} {f : Fiber} (r : ChildResult) : s.fibers[id]? = some f →
      Change s (s.retire id f.parent r)

/-- What holds of a live fiber with the number `id` while the numbers below `next` are used up. -/
structure Placed (f : Fiber) (id next : FiberId) : Prop extends Sound f where
  id_eq : f.id = id
  id_lt : id < next
  parent_lt {p : FiberId} : f.parent = some p → p < id
  awaited_lt {c : FiberId} : f.awaiting = some c → c < next

theorem Placed.mono {f : Fiber} {id n m : FiberId} (h : Placed f id n) (hn : n ≤ m) :
    Placed f id m where
  toSound := h.toSound
  id_eq := h.id_eq
  id_lt := Nat.lt_of_lt_of_le h.id_lt hn
  parent_lt := h.parent_lt
  awaited_lt hc := Nat.lt_of_lt_of_le (h.awaited_lt hc) hn

theorem Placed.of_idle {f : Fiber} {id n : FiberId} (hi : f.Idle) (hid : f.id = id) (hn : id < n)
    (hp : ∀ {p}, f.parent = some p → p < id) : Placed f id n where
  toSound := hi.sound
  id_eq := hid
  id_lt := hn
  parent_lt := hp
  awaited_lt hc := by simp [hi.awaiting] at hc

/-- The invariant of all schedulers: each live fiber is in its place, and a caller and its child
know of each other. -/
structure Linked (s : Scheduler) : Prop where
  placed {id : FiberId} {f : Fiber} : s.fibers[id]? = some f → Placed f id s.nextId
  blocked {p c : FiberId} {f : Fiber} : s.fibers[p]? = some f → f.awaiting = some c →
    f.enabled = false → ∃ g, s.fibers[c]? = some g ∧ g.parent = some p
  answered {p c : FiberId} {f : Fiber} : s.fibers[p]? = some f → f.awaiting = some c →
    f.enabled = true → s.fibers[c]? = none
  caller {c p : FiberId} {g f : Fiber} : s.fibers[c]? = some g → g.parent = some p →
    s.fibers[p]? = some f → f.awaiting = some c

theorem linked_empty : Linked {} := by
  constructor <;> simp

/-- A fiber that may run has no live child. -/
theorem Linked.childless (h : Linked s) {id c : FiberId} {f g : Fiber}
    (hf : s.fibers[id]? = some f) (he : f.enabled = true) (hg : s.fibers[c]? = some g) :
    g.parent ≠ some id := by
  intro hp
  have hn := h.answered hf (h.caller hg hp hf) he
  simp [hn] at hg

/-- The next number is neither a live fiber's nor its caller's. -/
theorem Linked.parent_ne_nextId (h : Linked s) {c : FiberId} {g : Fiber}
    (hg : s.fibers[c]? = some g) : g.parent ≠ some s.nextId := by
  intro hp
  exact Nat.lt_asymm ((h.placed hg).parent_lt hp) (h.placed hg).id_lt

theorem Linked.start (h : Linked s) {f : Fiber} (hi : f.Idle) (hid : f.id = s.nextId)
    (hp : f.parent = none) :
    Linked { fibers := s.fibers.insert s.nextId f, nextId := s.nextId + 1 } := by
  constructor <;> dsimp only
  · intro id g hg
    rcases of_getElem?_insert hg with ⟨rfl, rfl⟩ | ⟨-, hg⟩
    · exact .of_idle hi hid (Nat.lt_succ_self _) (by simp [hp])
    · exact (h.placed hg).mono (Nat.le_succ _)
  · intro id c g hg hc he
    rcases of_getElem?_insert hg with ⟨rfl, rfl⟩ | ⟨-, hg⟩
    · simp [hi.awaiting] at hc
    · have hlt := (h.placed hg).awaited_lt hc
      simpa [Nat.ne_of_gt hlt] using h.blocked hg hc he
  · intro id c g hg hc he
    rcases of_getElem?_insert hg with ⟨rfl, rfl⟩ | ⟨-, hg⟩
    · simp [hi.awaiting] at hc
    · have hlt := (h.placed hg).awaited_lt hc
      simpa [Nat.ne_of_gt hlt] using h.answered hg hc he
  · intro c p g k hg hgp hk
    rcases of_getElem?_insert hg with ⟨rfl, rfl⟩ | ⟨-, hg⟩
    · simp [hp] at hgp
    · rcases of_getElem?_insert hk with ⟨rfl, rfl⟩ | ⟨-, hk⟩
      · exact absurd hgp (h.parent_ne_nextId hg)
      · exact h.caller hg hgp hk

theorem Linked.rest (h : Linked s) {id : FiberId} {f g : Fiber} (hf : s.fibers[id]? = some f)
    (he : f.enabled = true) (hid : g.id = f.id) (hp : g.parent = f.parent) (hi : g.Idle) :
    Linked { s with fibers := s.fibers.insert id g } := by
  have hpl := h.placed hf
  constructor <;> dsimp only
  · intro a k hk
    rcases of_getElem?_insert hk with ⟨rfl, rfl⟩ | ⟨-, hk⟩
    · exact .of_idle hi (hid.trans hpl.id_eq) hpl.id_lt fun h => hpl.parent_lt (hp ▸ h)
    · exact h.placed hk
  · intro a c k hk hc hn
    rcases of_getElem?_insert hk with ⟨rfl, rfl⟩ | ⟨-, hk⟩
    · simp [hi.awaiting] at hc
    · obtain ⟨l, hl, hlp⟩ := h.blocked hk hc hn
      by_cases hci : id = c
      · subst hci
        rw [hf] at hl
        cases hl
        exact ⟨g, by simp, hp.trans hlp⟩
      · exact ⟨l, by simpa [hci] using hl, hlp⟩
  · intro a c k hk hc hn
    rcases of_getElem?_insert hk with ⟨rfl, rfl⟩ | ⟨-, hk⟩
    · simp [hi.awaiting] at hc
    · have hl := h.answered hk hc hn
      have hci : id ≠ c := by
        rintro rfl
        simp [hf] at hl
      simpa [hci] using hl
  · intro c p k l hk hkp hl
    rcases of_getElem?_insert hl with ⟨rfl, rfl⟩ | ⟨hlp, hl⟩
    · -- nobody calls itself, and the fiber that ran had no live child
      rcases of_getElem?_insert hk with ⟨rfl, rfl⟩ | ⟨-, hk⟩
      · exact absurd (hpl.parent_lt (hp ▸ hkp)) (Nat.lt_irrefl _)
      · exact absurd hkp (h.childless hf he hk)
    · rcases of_getElem?_insert hk with ⟨rfl, rfl⟩ | ⟨-, hk⟩
      · exact h.caller hf (hp ▸ hkp) hl
      · exact h.caller hk hkp hl

theorem Linked.call (h : Linked s) {id : FiberId} {f g child : Fiber} {r : CallRequest}
    (hf : s.fibers[id]? = some f) (he : f.enabled = true) (hid : g.id = f.id)
    (hp : g.parent = f.parent) (hg : g.Calling r) (hi : child.Idle) (hc : child.id = s.nextId)
    (hcp : child.parent = some id) :
    Linked {
      fibers := (s.fibers.insert s.nextId child).insert id (g.await s.nextId r.resume)
      nextId := s.nextId + 1 } := by
  have hpl := h.placed hf
  have hne : id ≠ s.nextId := Nat.ne_of_lt hpl.id_lt
  have hpl' : Placed (g.await s.nextId r.resume) id (s.nextId + 1) := {
    toSound := hg.sound_await _
    id_eq := hid.trans hpl.id_eq
    id_lt := Nat.lt_succ_of_lt hpl.id_lt
    parent_lt := fun h => hpl.parent_lt (hp ▸ h)
    awaited_lt := by
      rintro c ⟨⟩
      exact Nat.lt_succ_self _ }
  constructor <;> dsimp only
  · intro a k hk
    rcases of_getElem?_insert hk with ⟨rfl, rfl⟩ | ⟨-, hk⟩
    · exact hpl'
    · rcases of_getElem?_insert hk with ⟨rfl, rfl⟩ | ⟨-, hk⟩
      · exact .of_idle hi hc (Nat.lt_succ_self _) fun h => by
          rw [hcp] at h
          cases h
          exact hpl.id_lt
      · exact (h.placed hk).mono (Nat.le_succ _)
  · intro a c k hk hkc hn
    rcases of_getElem?_insert hk with ⟨rfl, rfl⟩ | ⟨-, hk⟩
    · obtain rfl : s.nextId = c := Option.some.inj hkc
      refine ⟨child, ?_, hcp⟩
      rw [getElem?_insert_fiber, if_neg hne, getElem?_insert_fiber, if_pos rfl]
    · rcases of_getElem?_insert hk with ⟨rfl, rfl⟩ | ⟨-, hk⟩
      · simp [hi.awaiting] at hkc
      · obtain ⟨l, hl, hlp⟩ := h.blocked hk hkc hn
        have hlt := (h.placed hk).awaited_lt hkc
        by_cases hci : id = c
        · subst hci
          rw [hf] at hl
          cases hl
          exact ⟨g.await s.nextId r.resume, by simp, hp.trans hlp⟩
        · exact ⟨l, by simpa [hci, Nat.ne_of_gt hlt] using hl, hlp⟩
  · intro a c k hk hkc hn
    rcases of_getElem?_insert hk with ⟨rfl, rfl⟩ | ⟨-, hk⟩
    · exact absurd hn (by simp [await, hg.enabled])
    · rcases of_getElem?_insert hk with ⟨rfl, rfl⟩ | ⟨-, hk⟩
      · simp [hi.awaiting] at hkc
      · have hl := h.answered hk hkc hn
        have hlt := (h.placed hk).awaited_lt hkc
        have hci : id ≠ c := by
          rintro rfl
          simp [hf] at hl
        simpa [hci, Nat.ne_of_gt hlt] using hl
  · intro c p k l hk hkp hl
    rcases of_getElem?_insert hl with ⟨rfl, rfl⟩ | ⟨hlp, hl⟩
    · rcases of_getElem?_insert hk with ⟨rfl, rfl⟩ | ⟨-, hk⟩
      · exact absurd (hpl.parent_lt (hp ▸ hkp)) (Nat.lt_irrefl _)
      · rcases of_getElem?_insert hk with ⟨rfl, rfl⟩ | ⟨-, hk⟩
        · rfl
        · exact absurd hkp (h.childless hf he hk)
    · rcases of_getElem?_insert hk with ⟨rfl, rfl⟩ | ⟨-, hk⟩
      · have hkp : f.parent = some p := hp ▸ hkp
        rcases of_getElem?_insert hl with ⟨rfl, rfl⟩ | ⟨-, hl⟩
        · exact absurd hkp (h.parent_ne_nextId hf)
        · exact h.caller hf hkp hl
      · rcases of_getElem?_insert hk with ⟨rfl, rfl⟩ | ⟨-, hk⟩
        · rw [hcp] at hkp
          exact absurd (Option.some.inj hkp) hlp
        · rcases of_getElem?_insert hl with ⟨rfl, rfl⟩ | ⟨-, hl⟩
          · exact absurd hkp (h.parent_ne_nextId hk)
          · exact h.caller hk hkp hl

theorem Placed.deliver {f : Fiber} {id n c : FiberId} (h : Placed f id n) (r : ChildResult)
    (hc : f.awaiting = some c) : Placed (f.deliver r) id n where
  valid := h.valid
  live := h.live
  free ha := by
    have ha : f.awaiting = none := ha
    simp [hc] at ha
  bound _ _ := by simp [Fiber.deliver]
  pending := h.pending
  id_eq := h.id_eq
  id_lt := h.id_lt
  parent_lt := h.parent_lt
  awaited_lt := h.awaited_lt

theorem Linked.retire (h : Linked s) {id : FiberId} {f : Fiber} (r : ChildResult)
    (hf : s.fibers[id]? = some f) : Linked (s.retire id f.parent r) := by
  constructor
  · intro a k hk
    rw [nextId_retire]
    obtain ⟨-, l, hl, ⟨-, hla, rfl⟩ | ⟨-, rfl⟩⟩ := of_getElem?_retire hk
    · exact (h.placed hl).deliver r hla
    · exact h.placed hl
  · intro a c k hk hc he
    obtain ⟨-, l, hl, ⟨-, -, rfl⟩ | ⟨hn, rfl⟩⟩ := of_getElem?_retire hk
    · cases he
    · obtain ⟨g, hg, hga⟩ := h.blocked hl hc he
      have hne : id ≠ c := by
        rintro rfl
        rw [hf] at hg
        cases hg
        exact hn ⟨hga, hc⟩
      rw [getElem?_retire, if_neg hne, hg]
      split
      · exact ⟨g.deliver r, rfl, hga⟩
      · exact ⟨g, rfl, hga⟩
  · intro a c k hk hc he
    obtain ⟨-, l, hl, ⟨-, hla, rfl⟩ | ⟨-, rfl⟩⟩ := of_getElem?_retire hk
    · obtain rfl : id = c := Option.some.inj (hla.symm.trans hc)
      rw [getElem?_retire, if_pos rfl]
    · rw [getElem?_retire, h.answered hl hc he]
      simp
  · intro c p k l hk hkp hl
    obtain ⟨-, k, hk', -, hp, -⟩ := links_of_retire hk
    obtain ⟨-, l, hl', -, -, ha⟩ := links_of_retire hl
    exact ha ▸ h.caller hk' (hp ▸ hkp) hl'

/-- Every elementary change keeps callers and children in step. -/
theorem Linked.change (h : Linked s) (hc : Change s s') : Linked s' := by
  cases hc with
  | same => exact h
  | start hi hid hp => exact h.start hi hid hp
  | rest hf he hid hp hi => exact h.rest hf he hid hp hi
  | call hf he hid hp hg hi hc hcp => exact h.call hf he hid hp hg hi hc hcp
  | retire r hf => exact h.retire r hf

end TileScript.Scheduler
