import Rmote.Stream.Credit
import Rmote.Library.Machine
import Mathlib.Algebra.Ring.Nat
import Mathlib.Algebra.BigOperators.Group.List.Basic

/-!
# Runs of a credit

One producer spends the credit of its stream, and everything else comes from the peer
or from the end of the link: `giveBack` with any two integers, and `release`. Between
a `spend` that waits and its next pass any of these can happen, so the producer is a
state of its own, and `step` says what can come next. `spent` and `returned` record
the items that were paid and the permissions that were taken.
-/

namespace Rmote

/-- The credit of one stream with its producer. `waiting` is the size of the item
whose `spend` sleeps on `ready`. -/
structure Producer where
  credit : StreamCredit
  waiting : Option ℕ
  spent : List ℕ
  returned : List (ℕ × ℕ)
  deriving DecidableEq

/-- What happens to the credit next. -/
inductive CreditEvent where
  /-- The producer calls `spend`. -/
  | spend (size : ℕ)
  /-- The producer that waits is resumed, and looks again. -/
  | wake
  | giveBack (size items : ℤ)
  | release
  deriving DecidableEq

namespace Producer

/-- The producer of a new stream. -/
def start (maxBytes maxItems : ℕ) : Producer := ⟨.new maxBytes maxItems, none, [], []⟩

/-- One pass through the loop of `spend`. -/
def attempt (p : Producer) (size : ℕ) : Producer :=
  match p.credit.spend size with
  | (.paid, c) => { p with credit := c, waiting := none, spent := p.spent ++ [size] }
  | (.stopped, c) => { p with credit := c, waiting := none }
  | (.waits, c) => { p with credit := c, waiting := some size }

/-- A call of `give_back`. One that is refused raises, and the producer goes on. -/
def receive (p : Producer) (size items : ℤ) : Producer :=
  match p.credit.giveBack size items with
  | .ok c => { p with credit := c, returned := p.returned ++ [(size.toNat, items.toNat)] }
  | .error _ => p

/-- The state after one event. There is one producer, so it spends again only after
the last `spend` returned, and it is resumed only when `ready` is set. -/
def step (p : Producer) : CreditEvent → Option Producer
  | .spend size => if p.waiting = none ∧ 0 < size then some (p.attempt size) else none
  | .wake =>
      match p.waiting with
      | some size => if p.credit.ready then some (p.attempt size) else none
      | none => none
  | .giveBack size items => some (p.receive size items)
  | .release => some { p with credit := p.credit.release }

/-- The largest item that was paid. -/
def largest (p : Producer) : ℕ := p.spent.foldr max 0

/-- What holds of a credit and its producer in every state. -/
structure Sound (maxBytes maxItems : ℕ) (p : Producer) : Prop where
  maxBytes_eq : p.credit.maxBytes = maxBytes
  maxItems_eq : p.credit.maxItems = maxItems
  items_le : p.credit.itemsInFlight ≤ maxItems
  bytes_le : p.credit.bytesInFlight ≤ max maxBytes p.largest
  bytes_eq : p.credit.bytesInFlight + (p.returned.map Prod.fst).sum = p.spent.sum
  items_eq : p.credit.itemsInFlight + (p.returned.map Prod.snd).sum = p.spent.length
  /-- A producer that waits has no room, or it is about to be resumed. -/
  awake : ∀ size, p.waiting = some size →
    p.credit.ready = true ∨ p.credit.released = false ∧ p.credit.fits size = false

variable {p q : Producer} {maxBytes maxItems size : ℕ}

theorem sound_start (maxBytes maxItems : ℕ) : (start maxBytes maxItems).Sound maxBytes maxItems where
  maxBytes_eq := rfl
  maxItems_eq := rfl
  items_le := Nat.zero_le _
  bytes_le := Nat.zero_le _
  bytes_eq := rfl
  items_eq := rfl
  awake _ h := by cases h

theorem largest_append (p : Producer) (size : ℕ) :
    (p.spent ++ [size]).foldr max 0 = max p.largest size := by
  unfold largest
  generalize p.spent = sizes
  induction sizes with
  | nil => simp
  | cons n sizes ih => rw [List.cons_append, List.foldr_cons, ih, List.foldr_cons, max_assoc]

/-- Everything that one pass of `spend` does to the producer. -/
theorem attempt_cases (p : Producer) (size : ℕ) :
    (p.credit.released = true ∧ p.attempt size = { p with waiting := none }) ∨
    (p.credit.released = false ∧ p.credit.fits size = true ∧
      p.attempt size = { p with
        credit := { p.credit with
          bytesInFlight := p.credit.bytesInFlight + size
          itemsInFlight := p.credit.itemsInFlight + 1 }
        waiting := none
        spent := p.spent ++ [size] }) ∨
    (p.credit.released = false ∧ p.credit.fits size = false ∧
      p.attempt size = { p with
        credit := { p.credit with ready := false }
        waiting := some size }) := by
  rcases p.credit.spend_cases size with ⟨hreleased, hspend⟩ | ⟨hreleased, hfits, hspend⟩ |
    ⟨hreleased, hfits, hspend⟩
  · exact .inl ⟨hreleased, by rw [attempt, hspend]⟩
  · exact .inr (.inl ⟨hreleased, hfits, by rw [attempt, hspend]⟩)
  · exact .inr (.inr ⟨hreleased, hfits, by rw [attempt, hspend]⟩)

/-- Everything that one permission does to the producer. -/
theorem receive_cases (p : Producer) (size items : ℤ) :
    (∃ error, p.credit.giveBack size items = .error error ∧ p.receive size items = p) ∨
    (size.toNat ≤ p.credit.bytesInFlight ∧ items.toNat ≤ p.credit.itemsInFlight ∧
      p.receive size items = { p with
        credit := { p.credit with
          bytesInFlight := p.credit.bytesInFlight - size.toNat
          itemsInFlight := p.credit.itemsInFlight - items.toNat
          ready := true }
        returned := p.returned ++ [(size.toNat, items.toNat)] }) := by
  unfold receive StreamCredit.giveBack
  split_ifs with hneg habove
  · exact .inl ⟨_, rfl, rfl⟩
  · exact .inl ⟨_, rfl, rfl⟩
  · rw [not_or, not_lt, not_lt] at habove
    exact .inr ⟨by omega, by omega, rfl⟩

/-- An item is paid only when there is room for it, or when nothing is in flight. -/
theorem sound_attempt (h : p.Sound maxBytes maxItems) (size : ℕ) :
    (p.attempt size).Sound maxBytes maxItems := by
  rcases attempt_cases p size with ⟨-, heq⟩ | ⟨-, hfits, heq⟩ | ⟨hreleased, hfits, heq⟩
  all_goals rw [heq]
  · exact { h with awake := fun _ hwait => by cases hwait }
  · obtain ⟨hitems, hbytes⟩ := StreamCredit.fits_iff.mp hfits
    rw [h.maxItems_eq] at hitems
    rw [h.maxBytes_eq] at hbytes
    refine ⟨h.maxBytes_eq, h.maxItems_eq, hitems, ?_, ?_, ?_, fun _ hwait => by cases hwait⟩
    · rw [largest, largest_append]
      simp only
      rcases hbytes with hzero | hroom
      · rw [hzero, Nat.zero_add]
        exact le_max_of_le_right (le_max_right _ _)
      · exact le_max_of_le_left hroom
    · have hsum := h.bytes_eq
      simp only [List.sum_append, List.sum_singleton]
      omega
    · have hcount := h.items_eq
      simp only [List.length_append, List.length_singleton]
      omega
  · refine { h with awake := fun size' hwait => .inr ?_ }
    obtain rfl := Option.some.inj hwait
    exact ⟨hreleased, hfits⟩

/-- A permission that is taken gives back what was in flight, and resumes the
producer. -/
theorem sound_receive (h : p.Sound maxBytes maxItems) (size items : ℤ) :
    (p.receive size items).Sound maxBytes maxItems := by
  rcases receive_cases p size items with ⟨error, -, heq⟩ | ⟨hsize, hcount, heq⟩
  all_goals rw [heq]
  · exact h
  · refine ⟨h.maxBytes_eq, h.maxItems_eq, ?_, ?_, ?_, ?_, fun _ _ => .inl rfl⟩
    · exact (Nat.sub_le _ _).trans h.items_le
    · exact (Nat.sub_le _ _).trans h.bytes_le
    · have hsum := h.bytes_eq
      simp only [List.map_append, List.map_cons, List.map_nil, List.sum_append, List.sum_singleton]
      omega
    · have hsum := h.items_eq
      simp only [List.map_append, List.map_cons, List.map_nil, List.sum_append, List.sum_singleton]
      omega

theorem sound_release (h : p.Sound maxBytes maxItems) :
    ({ p with credit := p.credit.release } : Producer).Sound maxBytes maxItems :=
  ⟨h.maxBytes_eq, h.maxItems_eq, h.items_le, h.bytes_le, h.bytes_eq, h.items_eq,
    fun _ _ => .inl rfl⟩

/-- Everything that can happen next. -/
theorem step_cases {e : CreditEvent} (h : p.step e = some q) :
    (∃ size, e = .spend size ∧ p.waiting = none ∧ 0 < size ∧ q = p.attempt size) ∨
    (∃ size, e = .wake ∧ p.waiting = some size ∧ p.credit.ready = true ∧ q = p.attempt size) ∨
    (∃ size items, e = .giveBack size items ∧ q = p.receive size items) ∨
    (e = .release ∧ q = { p with credit := p.credit.release }) := by
  cases e with
  | spend size =>
      simp only [step] at h
      split_ifs at h with hidle
      exact .inl ⟨size, rfl, hidle.1, hidle.2, (Option.some.inj h).symm⟩
  | wake =>
      cases hwait : p.waiting with
      | none => simp [step, hwait] at h
      | some size =>
          simp only [step, hwait] at h
          split_ifs at h with hready
          exact .inr (.inl ⟨size, rfl, rfl, hready, (Option.some.inj h).symm⟩)
  | giveBack size items =>
      exact .inr (.inr (.inl ⟨size, items, rfl, (Option.some.inj h).symm⟩))
  | release => exact .inr (.inr (.inr ⟨rfl, (Option.some.inj h).symm⟩))

/-- Every step keeps the credit within its bounds. -/
theorem sound_step (h : p.Sound maxBytes maxItems) {e : CreditEvent} (hstep : p.step e = some q) :
    q.Sound maxBytes maxItems := by
  rcases step_cases hstep with ⟨size, -, -, -, rfl⟩ | ⟨size, -, -, -, rfl⟩ |
    ⟨size, items, -, rfl⟩ | ⟨-, rfl⟩
  · exact sound_attempt h size
  · exact sound_attempt h size
  · exact sound_receive h size items
  · exact sound_release h

/-- After `release` no item is paid, and the credit stays released. -/
theorem released_step (hreleased : p.credit.released = true) {e : CreditEvent}
    (hstep : p.step e = some q) : q.credit.released = true ∧ q.spent = p.spent := by
  have hattempt : ∀ size, (p.attempt size).credit.released = true ∧
      (p.attempt size).spent = p.spent := by
    intro size
    rcases attempt_cases p size with ⟨-, heq⟩ | ⟨hfalse, -, -⟩ | ⟨hfalse, -, -⟩
    · rw [heq]
      exact ⟨hreleased, rfl⟩
    · rw [hreleased] at hfalse
      cases hfalse
    · rw [hreleased] at hfalse
      cases hfalse
  rcases step_cases hstep with ⟨size, -, -, -, rfl⟩ | ⟨size, -, -, -, rfl⟩ |
    ⟨size, items, -, rfl⟩ | ⟨-, rfl⟩
  · exact hattempt size
  · exact hattempt size
  · rcases receive_cases p size items with ⟨error, -, heq⟩ | ⟨-, -, heq⟩
    all_goals rw [heq]; exact ⟨hreleased, rfl⟩
  · exact ⟨rfl, rfl⟩

theorem released_run (hreleased : p.credit.released = true) {es : List CreditEvent}
    (hrun : Machine.run step p es = some q) : q.spent = p.spent := by
  have hinvariant := Machine.run_always
    (fun r : Producer => r.credit.released = true ∧ r.spent = p.spent)
    (fun r e t hr hstep => ⟨(released_step hr.1 hstep).1, (released_step hr.1 hstep).2.trans hr.2⟩)
    hrun ⟨hreleased, rfl⟩
  exact hinvariant.2

/-- With nothing in flight the producer that waits can be resumed, and its item is
paid unless the credit was released. -/
theorem wake_of_drained (h : p.Sound maxBytes maxItems) (hmax : 0 < maxItems)
    (hwait : p.waiting = some size) (hbytes : p.credit.bytesInFlight = 0)
    (hitems : p.credit.itemsInFlight = 0) :
    ∃ q, p.step .wake = some q ∧ q.waiting = none ∧
      (p.credit.released = false → q.spent = p.spent ++ [size]) := by
  have hfits : p.credit.fits size = true := by
    refine StreamCredit.fits_iff.mpr ⟨?_, .inl hbytes⟩
    rw [hitems, h.maxItems_eq]
    exact hmax
  have hready : p.credit.ready = true := by
    rcases h.awake size hwait with hready | ⟨-, hfull⟩
    · exact hready
    · rw [hfits] at hfull
      cases hfull
  refine ⟨p.attempt size, by simp [step, hwait, hready], ?_, fun hreleased => ?_⟩
  · rcases attempt_cases p size with ⟨-, heq⟩ | ⟨-, -, heq⟩ | ⟨-, hfull, -⟩
    · rw [heq]
    · rw [heq]
    · rw [hfits] at hfull
      cases hfull
  · rcases attempt_cases p size with ⟨htrue, -⟩ | ⟨-, -, heq⟩ | ⟨-, hfull, -⟩
    · rw [hreleased] at htrue
      cases htrue
    · rw [heq]
    · rw [hfits] at hfull
      cases hfull

/-- In every run the credit stays within its bounds, whatever the peer returns: the
items and the bytes in flight are limited, the bytes are those that were spent less
those that were taken back, a permission that is refused changes nothing, nothing is
paid after `release`, and a producer that waits can go on as soon as nothing is in
flight. -/
theorem run_bounded {es : List CreditEvent}
    (hrun : Machine.run step (start maxBytes maxItems) es = some p) :
    p.credit.itemsInFlight ≤ maxItems ∧
    p.credit.bytesInFlight ≤ max maxBytes p.largest ∧
    p.credit.bytesInFlight + (p.returned.map Prod.fst).sum = p.spent.sum ∧
    p.credit.itemsInFlight + (p.returned.map Prod.snd).sum = p.spent.length ∧
    (∀ size items error, p.credit.giveBack size items = .error error →
      p.step (.giveBack size items) = some p) ∧
    (p.credit.released = true → ∀ fs q, Machine.run step p fs = some q → q.spent = p.spent) ∧
    (0 < maxItems → ∀ size, p.waiting = some size → p.credit.bytesInFlight = 0 →
      p.credit.itemsInFlight = 0 →
      ∃ q, p.step .wake = some q ∧ q.waiting = none ∧
        (p.credit.released = false → q.spent = p.spent ++ [size])) := by
  have h : p.Sound maxBytes maxItems := Machine.run_always (Sound maxBytes maxItems)
    (fun s e t hs hstep => sound_step hs hstep) hrun (sound_start maxBytes maxItems)
  refine ⟨h.items_le, h.bytes_le, h.bytes_eq, h.items_eq, fun size items error herror => ?_,
    fun hreleased fs q => released_run hreleased, fun hmax size => wake_of_drained h hmax⟩
  simp [step, receive, herror]

/-- A run with an item above the budget, one that waits behind it, a refused
permission and the return of both amounts. -/
theorem run_bounded_oversize :
    let p : Producer := ⟨⟨10, 2, 5, 1, false, true⟩, none, [20, 5], [(20, 1)]⟩
    Machine.run step (start 10 2)
      [.spend 20, .spend 5, .giveBack 21 1, .giveBack 20 1, .wake] = some p ∧
    p.credit.bytesInFlight ≤ max 10 p.largest := by
  intro p
  have hrun : Machine.run step (start 10 2)
      [.spend 20, .spend 5, .giveBack 21 1, .giveBack 20 1, .wake] = some p := by decide
  exact ⟨hrun, (run_bounded hrun).2.1⟩

end Producer

end Rmote
