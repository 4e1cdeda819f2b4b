import Rmote.Wire.Packet

/-!
# The codec of a stream batch

A batch is a list of items, each behind its length. A payload divides into items in
at most one way, and `split` follows that division: it unpickles the items from the
front and then finds the end of the payload, or a header or an item that is cut off.
Its answer is therefore the one of the unpickler on the complete items, and behind it
the framing error of the rest, if there is one.
-/

namespace Rmote

/-- `frames` are the items that a payload is made of. -/
structure Divides (frames : List Bytes) (payload : Bytes) : Prop where
  short : ∀ f ∈ frames, f.length < 2 ^ 32
  joined : payload = batch frames

/-- The two errors for a payload that ends inside an item. -/
def DecodeError.isTruncation : DecodeError → Bool
  | .truncatedHeader => true
  | .truncatedItem => true
  | _ => false

theorem batch_cons (frame : Bytes) (frames : List Bytes) :
    batch (frame :: frames) = packItem frame ++ batch frames := by
  rw [batch, List.flatMap_cons]
  rfl

/-- The first item that is found stands at the front of the payload, behind its length. -/
theorem splitItem_eq_ok {view frame rest : Bytes} (h : splitItem view = .ok (frame, rest)) :
    view = packItem frame ++ rest ∧ frame.length < 2 ^ 32 := by
  unfold splitItem at h
  split at h
  · cases h
  · rename_i header body hheader
    obtain ⟨hlen, rfl⟩ := readExactly_eq_some hheader
    split at h
    · cases h
    · rename_i item hitem
      obtain rfl := Except.ok.inj h
      obtain ⟨hsize, rfl⟩ := readExactly_eq_some hitem
      have hbound := BigEndian.decode_lt header
      rw [hlen] at hbound
      refine ⟨?_, by simpa [hsize, itemHeaderSize] using hbound⟩
      rw [packItem, hsize, ← hlen, BigEndian.encode_decode, List.append_assoc]

theorem splitItem_eq_error {view : Bytes} {error : DecodeError}
    (h : splitItem view = .error error) : error.isTruncation = true := by
  unfold splitItem at h
  split at h
  · cases h
    rfl
  · split at h
    · cases h
      rfl
    · cases h

/-- A payload that starts with an item divides into that item and the division of
the rest. -/
theorem divides_packItem_append {frame rest : Bytes} {frames : List Bytes}
    (hframe : frame.length < 2 ^ 32) :
    Divides frames (packItem frame ++ rest) ↔
      ∃ more, frames = frame :: more ∧ Divides more rest := by
  constructor
  · rintro ⟨hshort, hjoined⟩
    cases frames with
    | nil => simp [batch, packItem, BigEndian.encode, itemHeaderSize] at hjoined
    | cons f more =>
        have hf := hshort f List.mem_cons_self
        have hfirst := splitItem_packItem hframe rest
        rw [hjoined, batch_cons, splitItem_packItem hf] at hfirst
        obtain ⟨rfl, rfl⟩ := Prod.mk.inj (Except.ok.inj hfirst)
        exact ⟨more, rfl, fun g hg => hshort g (List.mem_cons_of_mem f hg), rfl⟩
  · rintro ⟨more, rfl, hshort, rfl⟩
    exact ⟨List.forall_mem_cons.mpr ⟨hframe, hshort⟩, (batch_cons frame more).symm⟩

/-- A payload that starts with no complete item divides only if it is empty. -/
theorem not_divides_of_error {view : Bytes} {error : DecodeError} (hview : view ≠ [])
    (h : splitItem view = .error error) (frames : List Bytes) : ¬ Divides frames view := by
  rintro ⟨hshort, rfl⟩
  cases frames with
  | nil => exact hview rfl
  | cons f more =>
      rw [batch_cons, splitItem_packItem (hshort f List.mem_cons_self)] at h
      cases h

variable {β : Type} (load : Bytes → Except DecodeError β)

@[simp] theorem split_nil : split load [] = .ok [] := by
  rw [split]
  rfl

theorem split_of_error {view : Bytes} {error : DecodeError} (hview : view ≠ [])
    (h : splitItem view = .error error) : split load view = .error error := by
  have hempty : view.isEmpty = false := by simpa using hview
  rw [split, hempty]
  simp only [Bool.false_eq_true, if_false]
  split
  · rename_i error' herror
    rw [h] at herror
    exact congrArg _ (Except.error.inj herror).symm
  · rename_i frame rest hframe
    rw [h] at hframe
    cases hframe

/-- An item at the front is unpickled before anything behind it is looked at. -/
theorem split_packItem_append {frame : Bytes} (hframe : frame.length < 2 ^ 32) (rest : Bytes) :
    split load (packItem frame ++ rest) =
      (load frame).bind fun value => (split load rest).map fun values => value :: values := by
  have hempty : (packItem frame ++ rest).isEmpty = false := by
    simp [packItem, BigEndian.encode, itemHeaderSize]
  have hfirst := splitItem_packItem hframe rest
  rw [split, hempty]
  simp only [Bool.false_eq_true, if_false]
  split
  · rename_i error herror
    rw [hfirst] at herror
    cases herror
  · rename_i frame' rest' hitem
    obtain ⟨rfl, rfl⟩ := Prod.mk.inj (Except.ok.inj (hfirst.symm.trans hitem))
    cases load frame with
    | error error => rfl
    | ok value => cases split load rest <;> rfl

/-- Complete items at the front are unpickled in order, and then the rest is split. -/
theorem split_batch_append {frames : List Bytes} (hshort : ∀ f ∈ frames, f.length < 2 ^ 32)
    (rest : Bytes) :
    split load (batch frames ++ rest) =
      (frames.mapM load).bind fun values => (split load rest).map fun more => values ++ more := by
  induction frames with
  | nil =>
      simp only [batch, List.flatMap_nil, List.nil_append, List.mapM_nil]
      cases split load rest <;> rfl
  | cons f frames ih =>
      have hrest := ih fun g hg => hshort g (List.mem_cons_of_mem f hg)
      rw [batch_cons, List.append_assoc,
        split_packItem_append load (hshort f List.mem_cons_self), hrest, List.mapM_cons]
      cases load f with
      | error error => rfl
      | ok value =>
          cases frames.mapM load with
          | error error => rfl
          | ok values => cases split load rest <;> rfl

/-- Every payload is a batch of complete items with a rest that starts with none. -/
theorem exists_complete (payload : Bytes) :
    ∃ frames cut, payload = batch frames ++ cut ∧ (∀ f ∈ frames, f.length < 2 ^ 32) ∧
      (cut = [] ∨ cut ≠ [] ∧ ∃ error, splitItem cut = .error error) := by
  induction hlen : payload.length using Nat.strong_induction_on generalizing payload with
  | _ n ih =>
      by_cases hempty : payload = []
      · exact ⟨[], [], hempty, by simp, .inl rfl⟩
      · cases hitem : splitItem payload with
        | error error => exact ⟨[], payload, rfl, by simp, .inr ⟨hempty, error, hitem⟩⟩
        | ok item =>
            obtain ⟨frame, rest⟩ := item
            obtain ⟨rfl, hframe⟩ := splitItem_eq_ok hitem
            have hshorter := hlen ▸ length_splitItem hitem
            obtain ⟨frames, cut, rfl, hshort, hcut⟩ := ih rest.length hshorter rest rfl
            refine ⟨frame :: frames, cut, ?_, List.forall_mem_cons.mpr ⟨hframe, hshort⟩, hcut⟩
            rw [batch_cons, List.append_assoc]

/-- What divides is divided in one way, item by item. -/
theorem divides_batch_append {frames more : List Bytes} {cut : Bytes}
    (hshort : ∀ f ∈ frames, f.length < 2 ^ 32) :
    Divides more (batch frames ++ cut) ↔ ∃ last, more = frames ++ last ∧ Divides last cut := by
  induction frames generalizing more with
  | nil => simp [batch]
  | cons f frames ih =>
      have hrest := fun last => @ih last fun g hg => hshort g (List.mem_cons_of_mem f hg)
      rw [batch_cons, List.append_assoc, divides_packItem_append (hshort f List.mem_cons_self)]
      constructor
      · rintro ⟨tail, rfl, htail⟩
        obtain ⟨last, rfl, hlast⟩ := (hrest tail).mp htail
        exact ⟨last, rfl, hlast⟩
      · rintro ⟨last, rfl, hlast⟩
        exact ⟨frames ++ last, rfl, (hrest _).mpr ⟨last, rfl, hlast⟩⟩

theorem divides_nil_iff {frames : List Bytes} : Divides frames [] ↔ frames = [] := by
  constructor
  · rintro ⟨-, hjoined⟩
    cases frames with
    | nil => rfl
    | cons f more => simp [batch, packItem, BigEndian.encode, itemHeaderSize] at hjoined
  · rintro rfl
    exact ⟨by simp, rfl⟩

/-- `split` undoes `batch` on items below 4 GiB, and on any payload it follows the
division into items. A payload that divides does so in one way, and its items are
unpickled in order. One that does not is never accepted: its complete items are
unpickled in order, and behind them stands the error for the header or the item that
is cut off. What is unpickled is always a part of the payload. -/
theorem split_exact :
    (∀ frames, (∀ f ∈ frames, f.length < 2 ^ 32) → split load (batch frames) = frames.mapM load) ∧
    ∀ payload,
      (∃ frames, Divides frames payload ∧ (∀ more, Divides more payload → more = frames) ∧
        split load payload = frames.mapM load) ∨
      ((∀ frames, ¬ Divides frames payload) ∧
        ∃ frames cut error, payload = batch frames ++ cut ∧ (∀ f ∈ frames, f.length < 2 ^ 32) ∧
          error.isTruncation = true ∧
          split load payload = (frames.mapM load).bind fun _ => .error error) := by
  have hcomplete : ∀ frames, (∀ f ∈ frames, f.length < 2 ^ 32) →
      split load (batch frames) = frames.mapM load := by
    intro frames hshort
    have hsplit := split_batch_append load hshort []
    rw [List.append_nil, split_nil] at hsplit
    rw [hsplit]
    cases frames.mapM load with
    | error error => rfl
    | ok values => exact congrArg Except.ok (List.append_nil values)
  refine ⟨hcomplete, fun payload => ?_⟩
  obtain ⟨frames, cut, rfl, hshort, hcut⟩ := exists_complete payload
  rcases hcut with rfl | ⟨hcut, error, herror⟩
  · refine .inl ⟨frames, ⟨hshort, List.append_nil _⟩, fun more hmore => ?_, ?_⟩
    · obtain ⟨last, rfl, hlast⟩ := (divides_batch_append hshort).mp hmore
      rw [divides_nil_iff.mp hlast, List.append_nil]
    · rw [List.append_nil]
      exact hcomplete frames hshort
  · refine .inr ⟨fun more hmore => ?_, frames, cut, error, rfl, hshort,
      splitItem_eq_error herror, ?_⟩
    · obtain ⟨last, -, hlast⟩ := (divides_batch_append hshort).mp hmore
      exact not_divides_of_error hcut herror last hlast
    · rw [split_batch_append load hshort, split_of_error load hcut herror]
      rfl

end Rmote
