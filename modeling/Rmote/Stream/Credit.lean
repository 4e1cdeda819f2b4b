import Mathlib.Data.List.Basic
import Mathlib.Algebra.Order.Ring.Int

/-!
# The permission of a streaming sender

`StreamCredit` counts the items of one streaming response that are in flight and
their serialized bytes. The sender pays for an item before it goes out and waits
as long as the item does not fit; the consumer gives both amounts back as it takes
the items. An item larger than the whole budget goes out alone.
-/

namespace Rmote

/-- Budget of one streaming response. -/
def maxStreamWindow : ℕ := 4 * 1024 * 1024

/-- Items that may be in flight at the same time. -/
def maxStreamBacklog : ℕ := 256

/-- Largest serialized item of a streaming response. -/
def maxStreamItem : ℕ := 64 * 1024 * 1024

/-- Permission to send the items of one streaming response. `ready` is the event
that a waiting sender sleeps on. -/
structure StreamCredit where
  maxBytes : ℕ
  maxItems : ℕ
  bytesInFlight : ℕ
  itemsInFlight : ℕ
  released : Bool
  ready : Bool
  deriving DecidableEq, Repr

/-- Why a permission is refused. -/
inductive CreditError where
  | negative (size items : ℤ)
  | aboveInFlight (size items : ℤ) (bytesInFlight itemsInFlight : ℕ)
  deriving DecidableEq, Repr

def CreditError.message : CreditError → String
  | .negative size items => s!"Negative stream permission: {size} bytes, {items} items"
  | .aboveInFlight size items bytes count =>
      s!"Stream permission above what is in flight: {size} bytes and {items} items " ++
        s!"against {bytes} bytes and {count} items"

/-- What one pass through the loop of `spend` comes to. -/
inductive Spend where
  /-- The sender must stop. -/
  | stopped
  /-- The item is paid. -/
  | paid
  /-- The sender waits for `ready`. -/
  | waits
  deriving DecidableEq, Repr

namespace StreamCredit

/-- The credit of a new stream. -/
def new (maxBytes maxItems : ℕ) : StreamCredit := ⟨maxBytes, maxItems, 0, 0, false, true⟩

/-- One more item of `size` bytes may go out now. -/
def fits (c : StreamCredit) (size : ℕ) : Bool :=
  if c.maxItems ≤ c.itemsInFlight then
    false
  else if c.bytesInFlight = 0 then
    true
  else
    c.bytesInFlight + size ≤ c.maxBytes

/-- One pass through the loop of `spend`, up to its next await or its return. -/
def spend (c : StreamCredit) (size : ℕ) : Spend × StreamCredit :=
  if c.released then
    (.stopped, c)
  else if c.fits size then
    (.paid, { c with
      bytesInFlight := c.bytesInFlight + size
      itemsInFlight := c.itemsInFlight + 1 })
  else
    (.waits, { c with ready := false })

/-- Take back the budget of items that the consumer has taken. -/
def giveBack (c : StreamCredit) (size items : ℤ) : Except CreditError StreamCredit :=
  if size < 0 ∨ items < 0 then
    .error (.negative size items)
  else if (c.bytesInFlight : ℤ) < size ∨ (c.itemsInFlight : ℤ) < items then
    .error (.aboveInFlight size items c.bytesInFlight c.itemsInFlight)
  else
    .ok { c with
      bytesInFlight := c.bytesInFlight - size.toNat
      itemsInFlight := c.itemsInFlight - items.toNat
      ready := true }

/-- Stop the sender. -/
def release (c : StreamCredit) : StreamCredit := { c with released := true, ready := true }

variable {c c' : StreamCredit} {size : ℕ}

/-- Everything that one pass through `spend` can do. -/
theorem spend_cases (c : StreamCredit) (size : ℕ) :
    (c.released = true ∧ c.spend size = (.stopped, c)) ∨
    (c.released = false ∧ c.fits size = true ∧
      c.spend size = (.paid, { c with
        bytesInFlight := c.bytesInFlight + size
        itemsInFlight := c.itemsInFlight + 1 })) ∨
    (c.released = false ∧ c.fits size = false ∧
      c.spend size = (.waits, { c with ready := false })) := by
  cases hreleased : c.released with
  | true => exact .inl ⟨rfl, by simp [spend, hreleased]⟩
  | false =>
      cases hfits : c.fits size with
      | true => exact .inr (.inl ⟨rfl, rfl, by simp [spend, hreleased, hfits]⟩)
      | false => exact .inr (.inr ⟨rfl, rfl, by simp [spend, hreleased, hfits]⟩)

theorem fits_iff : c.fits size = true ↔ c.itemsInFlight < c.maxItems ∧
    (c.bytesInFlight = 0 ∨ c.bytesInFlight + size ≤ c.maxBytes) := by
  unfold fits
  split_ifs with hitems hbytes
  · exact ⟨nofun, fun h => absurd hitems (not_le.mpr h.1)⟩
  · exact ⟨fun _ => ⟨not_le.mp hitems, .inl hbytes⟩, fun _ => rfl⟩
  · constructor
    · exact fun h => ⟨not_le.mp hitems, .inr (by simpa using h)⟩
    · rintro ⟨-, hzero | hroom⟩
      · exact absurd hzero hbytes
      · simpa using hroom

/-- A permission for amounts that are in flight is taken. -/
theorem giveBack_of_le {bytes items : ℕ} (hbytes : bytes ≤ c.bytesInFlight)
    (hitems : items ≤ c.itemsInFlight) :
    c.giveBack bytes items = .ok { c with
      bytesInFlight := c.bytesInFlight - bytes
      itemsInFlight := c.itemsInFlight - items
      ready := true } := by
  unfold giveBack
  rw [if_neg (by omega), if_neg (by omega)]
  rfl

/-- A permission for more bytes than are in flight is refused. -/
theorem giveBack_of_lt {bytes items : ℕ} (h : c.bytesInFlight < bytes) :
    c.giveBack bytes items =
      .error (.aboveInFlight bytes items c.bytesInFlight c.itemsInFlight) := by
  unfold giveBack
  rw [if_neg (by omega), if_pos (.inl (by exact_mod_cast h))]

/-- A permission that is taken was for amounts in flight. -/
theorem le_of_giveBack {bytes items : ℕ} (h : c.giveBack bytes items = .ok c') :
    bytes ≤ c.bytesInFlight ∧ items ≤ c.itemsInFlight := by
  unfold giveBack at h
  split_ifs at h with hneg habove
  rw [not_or, not_lt, not_lt] at habove
  exact ⟨by omega, by omega⟩

end StreamCredit

end Rmote
