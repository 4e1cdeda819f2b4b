import Rmote.Wire.FragmentBuffer
import Rmote.Wire.Header

/-!
# The receive loop

`absorb` is what happens to one frame once it is decoded: its body is inflated,
a fragment is stored, and a final frame completes its packet. `onFrame` is the
body of the loop of `receive`, which hands frames to a worker in groups when the
fragments of a packet passed the decode threshold, and `reassemble` is the loop
over a whole stream of frames, across the calls of `receive` that return the
packets one by one.

The grouping changes when a frame is decoded and never what is decoded:
`reassemble_eq_absorbAll`.
-/

namespace Rmote

/-- At most this many frames are handed to the worker together. -/
def decodeFramesLimit : ℕ := 16

/-- An exception that leaves `receive` while it handles a frame. -/
inductive ReceiveError where
  | inflate (error : InflateError)
  | store (error : StoreError)
  | gunzip (text : String)
  deriving DecidableEq, Repr

/-- One logical packet whose frames are complete, before it is unpickled. -/
structure Assembled where
  payload : Bytes
  flags : Flags
  packetId : ℕ
  deriving DecidableEq, Repr

variable (Z : Zlib)

/-- What decoding a frame reads and changes: the zlib dictionary and the
fragment buffer of the incoming direction. `gunzip` is `gzip.decompress`, which
serves a connection without the frame codec. -/
structure Inbound where
  inflate : Option (FrameDecompressor Z)
  fragments : FragmentBuffer
  gunzip : Bytes → Except String Bytes

/-- The loop of `receive`. `threshold = none` is `decode_threshold = -1`, and
`pending` is the group of frames that was read and is not decoded yet. -/
structure Receiver where
  inbound : Inbound Z
  threshold : Option ℕ
  pending : List Frame

variable {Z}

namespace Inbound

/-- Inflate a marked body and drop its mark. -/
def inflateBody (r : Inbound Z) (f : Frame) :
    Except ReceiveError (Bytes × Flags) × Inbound Z :=
  match r.inflate with
  | none => (.ok (f.body, f.flags), r)
  | some d =>
      if f.flags.has Flags.compressed then
        match d.decode f.body with
        | (.error e, d) => (.error (.inflate e), { r with inflate := some d })
        | (.ok body, d) =>
            (.ok (body, f.flags.clear Flags.compressed), { r with inflate := some d })
      else
        (.ok (f.body, f.flags), r)

/-- Store a fragment, or complete the packet of a final frame. -/
def place (r : Inbound Z) (packetId : ℕ) (chunk : Bytes) (flags : Flags) :
    Except ReceiveError (Option Assembled) × Inbound Z :=
  if flags.has Flags.fragment then
    match r.fragments.store packetId chunk with
    | (.error e, b) => (.error (.store e), { r with fragments := b })
    | (.ok _, b) => (.ok none, { r with fragments := b })
  else
    let (payload, b) := r.fragments.take packetId chunk
    if flags.has Flags.compressed then
      match r.gunzip payload with
      | .error text => (.error (.gunzip text), { r with fragments := b })
      | .ok payload => (.ok (some ⟨payload, flags, packetId⟩), { r with fragments := b })
    else
      (.ok (some ⟨payload, flags, packetId⟩), { r with fragments := b })

/-- Decode one frame. -/
def absorb (r : Inbound Z) (f : Frame) :
    Except ReceiveError (Option Assembled) × Inbound Z :=
  match r.inflateBody f with
  | (.error e, r) => (.error e, r)
  | (.ok (chunk, flags), r) => r.place f.packetId chunk flags

/-- Decode a group of frames in wire order, up to its first complete packet. -/
def decodeFrames (r : Inbound Z) :
    List Frame → Except ReceiveError (Option Assembled) × Inbound Z
  | [] => (.ok none, r)
  | f :: fs =>
      match r.absorb f with
      | (.ok none, r) => r.decodeFrames fs
      | out => out

/-- A stream decoded frame by frame, up to the first failure. -/
def absorbAll (r : Inbound Z) : List Frame → List Assembled × Except ReceiveError (Inbound Z)
  | [] => ([], .ok r)
  | f :: fs =>
      match r.absorb f with
      | (.error e, _) => ([], .error e)
      | (.ok none, r) => r.absorbAll fs
      | (.ok (some a), r) => (a :: (r.absorbAll fs).1, (r.absorbAll fs).2)

@[simp] theorem absorbAll_nil (r : Inbound Z) : r.absorbAll [] = ([], .ok r) := rfl

theorem absorbAll_append {r r' : Inbound Z} {fs : List Frame} {as : List Assembled}
    (h : r.absorbAll fs = (as, .ok r')) (gs : List Frame) :
    r.absorbAll (fs ++ gs) = (as ++ (r'.absorbAll gs).1, (r'.absorbAll gs).2) := by
  induction fs generalizing r as with
  | nil =>
      obtain ⟨rfl, hr⟩ := Prod.mk.inj h
      cases Except.ok.inj hr
      rfl
  | cons f fs ih =>
      rw [List.cons_append]
      simp only [absorbAll] at h ⊢
      split at h
      · cases (Prod.mk.inj h).2
      · exact ih h
      · obtain ⟨rfl, hr⟩ := Prod.mk.inj h
        rw [ih (Prod.ext rfl hr)]
        rfl

/-- A stream that fails keeps its packets and its failure when it goes on. -/
theorem absorbAll_append_error {r : Inbound Z} {fs : List Frame} {as : List Assembled}
    {e : ReceiveError} (h : r.absorbAll fs = (as, .error e)) (gs : List Frame) :
    r.absorbAll (fs ++ gs) = (as, .error e) := by
  induction fs generalizing r as with
  | nil => cases (Prod.mk.inj h).2
  | cons f fs ih =>
      rw [List.cons_append]
      simp only [absorbAll] at h ⊢
      split at h
      · exact h
      · exact ih h
      · obtain ⟨rfl, hr⟩ := Prod.mk.inj h
        rw [ih (Prod.ext rfl hr)]

/-- Inflating a body keeps the fragment mark of its frame. -/
theorem has_fragment_inflateBody {r r' : Inbound Z} {f : Frame} {chunk : Bytes} {flags : Flags}
    (h : r.inflateBody f = (.ok (chunk, flags), r')) :
    flags.has Flags.fragment = f.flags.has Flags.fragment := by
  unfold inflateBody at h
  split at h
  · cases h
    rfl
  · split_ifs at h
    · split at h
      · cases h
      · cases h
        exact Flags.has_clear_of_disjoint _ (by decide)
    · cases h
      rfl

/-- A fragment never completes a packet. -/
theorem absorb_fragment_ne_some {r r' : Inbound Z} {f : Frame} {a : Assembled}
    (hf : f.flags.has Flags.fragment = true) : r.absorb f ≠ (.ok (some a), r') := by
  intro h
  unfold absorb at h
  split at h
  · cases h
  · rename_i chunk flags r₁ hbody
    have hflags : flags.has Flags.fragment = true := (has_fragment_inflateBody hbody).trans hf
    rw [place, if_pos hflags] at h
    split at h <;> cases h

/-- A fragment is stored, and any other frame completes its own packet. -/
theorem absorb_ok {r r' : Inbound Z} {f : Frame} {out : Option Assembled}
    (h : r.absorb f = (.ok out, r')) :
    out = none ∧ f.flags.has Flags.fragment = true ∨
      ∃ a, out = some a ∧ f.flags.has Flags.fragment = false ∧ a.packetId = f.packetId := by
  unfold absorb at h
  split at h
  · cases h
  · rename_i chunk flags r₁ hbody
    have hflags := has_fragment_inflateBody hbody
    unfold place at h
    split_ifs at h with hfragment hcompressed
    · split at h
      · cases h
      · cases h
        exact .inl ⟨rfl, hflags.symm.trans hfragment⟩
    · simp only at h
      split at h
      · cases h
      · cases h
        exact .inr ⟨_, rfl, hflags.symm.trans (by simpa using hfragment), rfl⟩
    · cases h
      exact .inr ⟨_, rfl, hflags.symm.trans (by simpa using hfragment), rfl⟩

/-- An open group at the end of the stream decodes to what its frames decode to
one by one. -/
theorem absorbAll_fragments (r : Inbound Z) (ps : List Frame)
    (hps : ∀ p ∈ ps, p.flags.has Flags.fragment = true) :
    r.absorbAll ps =
      match r.decodeFrames ps with
      | (.error e, _) => ([], .error e)
      | (.ok _, r') => ([], .ok r') := by
  induction ps generalizing r with
  | nil => rfl
  | cons p ps ih =>
      have hrest := fun r => ih r fun q hq => hps q (List.mem_cons_of_mem p hq)
      rcases hp : r.absorb p with ⟨e | _ | a, r'⟩
      · simp only [absorbAll, decodeFrames, hp]
      · simp only [absorbAll, decodeFrames, hp]
        exact hrest r'
      · exact absurd hp (absorb_fragment_ne_some (hps p List.mem_cons_self))

/-- A group that its last frame closes decodes to what its frames decode to one
by one. -/
theorem absorbAll_group (r : Inbound Z) (ps : List Frame) (f : Frame) (fs : List Frame)
    (hps : ∀ p ∈ ps, p.flags.has Flags.fragment = true) :
    r.absorbAll (ps ++ f :: fs) =
      match r.decodeFrames (ps ++ [f]) with
      | (.error e, _) => ([], .error e)
      | (.ok none, r') => r'.absorbAll fs
      | (.ok (some a), r') => (a :: (r'.absorbAll fs).1, (r'.absorbAll fs).2) := by
  induction ps generalizing r with
  | nil =>
      simp only [List.nil_append, absorbAll, decodeFrames]
      split <;> simp_all
  | cons p ps ih =>
      have hrest := fun r => ih r fun q hq => hps q (List.mem_cons_of_mem p hq)
      rw [List.cons_append, List.cons_append]
      rcases hp : r.absorb p with ⟨e | _ | a, r'⟩
      · simp only [absorbAll, decodeFrames, hp]
      · simp only [absorbAll, decodeFrames, hp]
        exact hrest r'
      · exact absurd hp (absorb_fragment_ne_some (hps p List.mem_cons_self))

end Inbound

namespace Receiver

/-- The frame joins a group: previously decoded fragments crossed the inline
budget, or a group is already open. -/
def groups (r : Receiver Z) (f : Frame) : Bool :=
  match r.threshold with
  | none => false
  | some threshold =>
      !r.pending.isEmpty ||
        threshold < (r.inbound.fragments.sizes.lookup f.packetId).getD 0

/-- One turn of the loop of `receive`, after the frame was read. -/
def onFrame (r : Receiver Z) (f : Frame) :
    Except ReceiveError (Option Assembled) × Receiver Z :=
  if r.groups f then
    let frames := r.pending ++ [f]
    if f.flags.has Flags.fragment && frames.length < decodeFramesLimit then
      (.ok none, { r with pending := frames })
    else
      let (out, inbound) := r.inbound.decodeFrames frames
      (out, { r with inbound := inbound, pending := [] })
  else
    let (out, inbound) := r.inbound.absorb f
    (out, { r with inbound := inbound })

/-- The packets that the calls of `receive` return over a stream of frames, up
to the first failure. At the end of the stream the frames of an open group are
still decoded. -/
def reassemble (r : Receiver Z) : List Frame → List Assembled × Except ReceiveError (Inbound Z)
  | [] =>
      match r.inbound.decodeFrames r.pending with
      | (.error e, _) => ([], .error e)
      | (.ok _, inbound) => ([], .ok inbound)
  | f :: fs =>
      match r.onFrame f with
      | (.error e, _) => ([], .error e)
      | (.ok none, r) => r.reassemble fs
      | (.ok (some a), r) => (a :: (r.reassemble fs).1, (r.reassemble fs).2)

/-- The open group holds fragments only, and there is none without a threshold. -/
structure Open (r : Receiver Z) : Prop where
  fragments : ∀ p ∈ r.pending, p.flags.has Flags.fragment = true
  threshold : r.threshold = none → r.pending = []

theorem pending_of_not_groups {r : Receiver Z} (hr : r.Open) {f : Frame}
    (h : r.groups f = false) : r.pending = [] := by
  unfold groups at h
  split at h
  · rename_i hthreshold
    exact hr.threshold hthreshold
  · simp only [Bool.or_eq_false_iff, Bool.not_eq_false'] at h
    exact List.isEmpty_iff.mp h.1

/-- Whatever the decode threshold, the loop returns the packets of the stream
decoded frame by frame, and fails where that fails. -/
theorem reassemble_eq_absorbAll {r : Receiver Z} (hr : r.Open) (fs : List Frame) :
    r.reassemble fs = r.inbound.absorbAll (r.pending ++ fs) := by
  induction fs generalizing r with
  | nil =>
      rw [List.append_nil, Inbound.absorbAll_fragments _ _ hr.fragments]
      rfl
  | cons f fs ih =>
      have hclosed : ∀ inbound : Inbound Z, Open { r with inbound := inbound, pending := [] } :=
        fun inbound => ⟨by simp, fun _ => rfl⟩
      simp only [reassemble, onFrame]
      by_cases hg : r.groups f = true
      · rw [if_pos hg]
        by_cases hwait : (f.flags.has Flags.fragment &&
            decide ((r.pending ++ [f]).length < decodeFramesLimit)) = true
        · rw [if_pos hwait]
          rw [Bool.and_eq_true] at hwait
          have hopen : Open { r with pending := r.pending ++ [f] } := by
            constructor
            · intro p hp
              rcases List.mem_append.mp hp with hp | hp
              · exact hr.fragments p hp
              · exact List.mem_singleton.mp hp ▸ hwait.1
            · intro hthreshold
              have hnone : r.threshold = none := hthreshold
              simp [groups, hnone] at hg
          have hrest := ih hopen
          simp only [List.append_assoc, List.singleton_append] at hrest
          exact hrest
        · rw [if_neg hwait, Inbound.absorbAll_group _ _ _ _ hr.fragments]
          generalize r.inbound.decodeFrames (r.pending ++ [f]) = out
          obtain ⟨result, inbound⟩ := out
          have hrest := ih (hclosed inbound)
          rcases result with e | _ | a <;> simp_all
      · rw [if_neg hg]
        have hpending := pending_of_not_groups hr (Bool.not_eq_true _ ▸ hg)
        rw [hpending, List.nil_append]
        simp only [Inbound.absorbAll]
        generalize r.inbound.absorb f = out
        obtain ⟨result, inbound⟩ := out
        have hrest := ih (hclosed inbound)
        rw [← hpending] at hrest
        rcases result with e | _ | a <;> simp_all

end Receiver

end Rmote
