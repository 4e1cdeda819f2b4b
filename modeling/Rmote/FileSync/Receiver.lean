import Mathlib.Data.List.Induction
import Rmote.FileSync.Session
import Rmote.Library.Hoare

/-!
# A receiver against any sender

The receiver applies a message piece by piece and may raise after any of them. What it has
taken so far is a list of whole blocks, and `Holds` says how the fields of the session
account for them: the position, the chain of signatures, the copy if one was started, and
the plan for the blocks that follow. Every method keeps this, whatever it is given, and
only `finish` touches the destination.
-/

namespace Rmote

namespace FileSync

open Hoare

theorem length_readAt (content : Bytes) (offset length : ℕ) :
    (readAt content offset length).length = min length (content.length - offset) := by
  rw [readAt, List.length_take, List.length_drop]

/-- Two reads that follow each other are one. -/
theorem readAt_add (content : Bytes) (offset length length' : ℕ) :
    readAt content offset length ++ readAt content (offset + length) length' =
      readAt content offset (length + length') := by
  rw [readAt, readAt, readAt, List.take_add, List.drop_drop]

/-- The signatures of a message. -/
def Message.signatures : Message → List Bytes
  | .batch message => message.signatures.map Prod.snd
  | .other => []

namespace Receiver

variable {sha : Bytes → Bytes} {r r' : Receiver}

@[simp] theorem put_put (data data' : Bytes) (r : Receiver) :
    put data' (put data r) = put (data ++ data') r := by
  unfold put
  cases r.output with
  | none => rfl
  | some file => simp

@[simp] theorem put_nil (r : Receiver) : put [] r = r := by
  unfold put
  cases houtput : r.output with
  | none => simp [← houtput]
  | some file => simp [← houtput]

@[simp] theorem block_put (data : Bytes) (r : Receiver) (offset length : ℕ) :
    (put data r).block offset length = r.block offset length := rfl

theorem block_add (r : Receiver) (offset length length' : ℕ) :
    r.block offset length ++ r.block (offset + length) length' =
      r.block offset (length + length') := by
  unfold block
  cases r.old with
  | none => rfl
  | some file => exact readAt_add ..

theorem length_block_le (r : Receiver) (offset length : ℕ) :
    (r.block offset length).length ≤ length := by
  unfold block
  cases r.old with
  | none => exact Nat.zero_le _
  | some file =>
      rw [length_readAt]
      exact min_le_left _ _

/-- A whole block can be read in two parts. -/
theorem length_block_split {offset length length' : ℕ}
    (h : (r.block offset (length + length')).length = length + length') :
    (r.block offset length).length = length ∧
      (r.block (offset + length) length').length = length' := by
  have hle := r.length_block_le offset length
  have hle' := r.length_block_le (offset + length) length'
  rw [← block_add, List.length_append] at h
  omega

/-- The copy takes what the destination holds. -/
theorem copyLoop_run (hpos : 0 < r.blockSize) {fuel position remaining : ℕ}
    (hfuel : remaining ≤ fuel) (hlength : (r.block position remaining).length = remaining) :
    (copyLoop fuel position remaining).run r = .ok .unit (put (r.block position remaining) r) := by
  induction fuel generalizing r position remaining with
  | zero =>
      obtain rfl := Nat.le_zero.mp hfuel
      rw [List.eq_nil_of_length_eq_zero hlength, put_nil]
      rfl
  | succ fuel ih =>
      by_cases hdone : remaining = 0
      · subst hdone
        rw [List.eq_nil_of_length_eq_zero hlength, put_nil]
        rfl
      · obtain ⟨n, hn⟩ : ∃ n, n = min r.blockSize remaining := ⟨_, rfl⟩
        obtain ⟨m, rfl⟩ : ∃ m, remaining = n + m := ⟨remaining - n, by omega⟩
        obtain ⟨hfirst, hrest⟩ := length_block_split hlength
        have hsome : r.block position n ≠ [] := by
          rw [← List.length_pos_iff, hfirst]
          omega
        have hnext : (copyLoop fuel (position + n) m).run (put (r.block position n) r) =
            .ok .unit (put (r.block (position + n) m) (put (r.block position n) r)) :=
          ih (r := put (r.block position n) r) hpos (by omega) hrest
        rw [put_put, block_add] at hnext
        rw [copyLoop, if_neg hdone]
        simp [← hn, hsome, hfirst, hnext]

/-- The temporary file with the part that already matched. -/
def started (r : Receiver) : Receiver := put (r.block 0 r.offset) r.create

theorem start_run (hpos : 0 < r.blockSize) (hlength : (r.block 0 r.offset).length = r.offset) :
    start.run r = .ok .unit r.started := by
  have hcopy := copyLoop_run (r := r.create) hpos le_rfl hlength
  unfold start
  simp only [EStateM.run_bind, EStateM.run_modify, EStateM.run_get]
  split_ifs with hnothing
  · have hnil : r.block 0 r.offset = [] := by
      rcases hnothing with hzero | hnone
      · have hoffset : r.offset = 0 := hzero
        rw [hoffset] at hlength
        rw [hoffset]
        exact List.eq_nil_of_length_eq_zero hlength
      · have hold : r.old = none := Option.isNone_iff_eq_none.mp hnone
        simp [block, hold]
    rw [started, hnil, put_nil]
    rfl
  · exact hcopy

/-- The copy, started if it was not. -/
def opened (r : Receiver) : Receiver := if r.output.isNone then r.started else r

theorem append_run (hpos : 0 < r.blockSize)
    (hlength : r.output = none → (r.block 0 r.offset).length = r.offset) (data signature : Bytes) :
    (append data signature).run r =
      .ok .unit (advance signature data.length (put data r.opened)) := by
  unfold append opened
  cases houtput : r.output with
  | none =>
      have hstart := start_run hpos (hlength houtput)
      simp [houtput, hstart]
  | some file => simp [houtput]

/-- What a kept block adds to the copy. -/
def copied (r : Receiver) (length : ℕ) : Receiver :=
  if r.output.isSome then put (r.block r.offset length) r else r

theorem keep_run {length : ℕ} (hlength : (r.block r.offset length).length = length)
    (signature : Bytes) :
    (keep length signature).run r = .ok .unit (advance signature length (r.copied length)) := by
  unfold keep copied
  cases houtput : r.output with
  | none => simp [houtput]
  | some file => simp [houtput, hlength]

/-! ## What the session has taken -/

/-- The planned blocks follow at the offset, and the matched ones are in the destination. -/
def Plans (sha : Bytes → Bytes) (r : Receiver) : ℕ → List Planned → Prop
  | _, [] => True
  | offset, planned :: plan =>
      0 < planned.length ∧ planned.length = min r.blockSize (r.size - offset) ∧
        (planned.matched = true → (r.block offset planned.length).length = planned.length ∧
          sha (r.block offset planned.length) = planned.signature) ∧
        Plans sha r (offset + planned.length) plan

/-- The session that began as `r₀` has taken these blocks, and has not touched the
destination. -/
structure Holds (sha : Bytes → Bytes) (r₀ : Receiver) (blocks : List Bytes) (r : Receiver) :
    Prop where
  path : r.path = r₀.path
  old : r.old = r₀.old
  blockSize : r.blockSize = r₀.blockSize
  size : r.size = r₀.size
  fits : Blocks.Fits r₀.blockSize r₀.size blocks
  offset : r.offset = blocks.flatten.length
  chain : r.chain = (blocks.map sha).flatten
  plan : Plans sha r₀ r.offset r.plan
  decided : r.decided = r.offset + (r.plan.map Planned.length).sum
  kept : r.output = none → r.transferred = 0 ∧ r₀.block 0 r.offset = blocks.flatten
  written : ∀ file, r.output = some file → file.content = blocks.flatten ∧
    file.inode = (r₀.old.map fun file => file.inode + 1).getD 0
  temp : r.temp = r.output.isSome

variable {r₀ : Receiver} {blocks : List Bytes} {planned : Planned} {plan : List Planned}

theorem Holds.block (h : Holds sha r₀ blocks r) (offset length : ℕ) :
    r.block offset length = r₀.block offset length := by
  rw [Receiver.block, h.old]
  rfl

/-- The part that matched is in the destination. -/
theorem Holds.length_block (h : Holds sha r₀ blocks r) (houtput : r.output = none) :
    (r.block 0 r.offset).length = r.offset := by
  rw [h.block, (h.kept houtput).2, h.offset]

/-- The session takes one more block: the first of its plan. -/
theorem Holds.next (h : Holds sha r₀ blocks r) (hplan : r.plan = planned :: plan) {data : Bytes}
    (hlength : data.length = planned.length) (hsha : sha data = planned.signature)
    (hpath : r'.path = r.path) (hold : r'.old = r.old) (hblockSize : r'.blockSize = r.blockSize)
    (hsize : r'.size = r.size) (hoffset : r'.offset = r.offset + planned.length)
    (hchain : r'.chain = r.chain ++ planned.signature) (hplan' : r'.plan = plan)
    (hdecided : r'.decided = r.decided)
    (hkept : r'.output = none → r'.transferred = 0 ∧
      r₀.block 0 r'.offset = blocks.flatten ++ data)
    (hwritten : ∀ file, r'.output = some file → file.content = blocks.flatten ++ data ∧
      file.inode = (r₀.old.map fun file => file.inode + 1).getD 0)
    (htemp : r'.temp = r'.output.isSome) :
    Holds sha r₀ (blocks ++ [data]) r' := by
  have hplans := h.plan
  rw [hplan] at hplans
  obtain ⟨hpos, hmin, -, hrest⟩ := hplans
  have hflatten : (blocks ++ [data]).flatten = blocks.flatten ++ data := by simp
  refine ⟨hpath.trans h.path, hold.trans h.old, hblockSize.trans h.blockSize,
    hsize.trans h.size, ?_, ?_, ?_, ?_, ?_, ?_, ?_, htemp⟩
  · refine Blocks.fits_append.mpr ⟨h.fits, ?_, ?_, trivial⟩
    · omega
    · rw [hlength, hmin, h.offset]
  · rw [hoffset, hflatten, List.length_append, hlength, h.offset]
  · rw [hchain, h.chain, ← hsha]
    simp
  · rw [hplan', hoffset]
    exact hrest
  · rw [hdecided, h.decided, hplan, hplan', hoffset, List.map_cons, List.sum_cons]
    omega
  · rw [hflatten]
    exact hkept
  · rw [hflatten]
    exact hwritten

/-- The copy is started with the blocks that were taken. -/
theorem Holds.opened (h : Holds sha r₀ blocks r) : Holds sha r₀ blocks r.opened := by
  unfold Receiver.opened
  split_ifs with hnone
  · have houtput : r.output = none := Option.isNone_iff_eq_none.mp hnone
    refine ⟨h.path, h.old, h.blockSize, h.size, h.fits, h.offset, h.chain, h.plan, h.decided,
      nofun, ?_, rfl⟩
    rintro file ⟨⟩
    have hblock := h.block 0 r.offset
    rw [(h.kept houtput).2] at hblock
    exact ⟨hblock, by rw [h.old]⟩
  · exact h

theorem isSome_opened (r : Receiver) : r.opened.output.isSome = true := by
  unfold Receiver.opened
  cases houtput : r.output with
  | none => simp [started, create, put]
  | some file => simp [houtput]

@[simp] theorem plan_opened (r : Receiver) : r.opened.plan = r.plan := by
  unfold Receiver.opened
  split_ifs <;> rfl

@[simp] theorem transferred_opened (r : Receiver) : r.opened.transferred = r.transferred := by
  unfold Receiver.opened
  split_ifs <;> rfl

@[simp] theorem reused_opened (r : Receiver) : r.opened.reused = r.reused := by
  unfold Receiver.opened
  split_ifs <;> rfl

theorem opened_pop (r : Receiver) (plan : List Planned) :
    (pop plan r).opened = pop plan r.opened := by
  unfold Receiver.opened
  rw [show (pop plan r).output = r.output from rfl]
  split_ifs <;> rfl

/-- A block is added to a copy that was started. -/
theorem Holds.taken (h : Holds sha r₀ blocks r) {file : File} (houtput : r.output = some file)
    (hplan : r.plan = planned :: plan) {data : Bytes} (hlength : data.length = planned.length)
    (hsha : sha data = planned.signature) :
    Holds sha r₀ (blocks ++ [data])
      (advance planned.signature planned.length (put data (pop plan r))) := by
  obtain ⟨hcontent, hinode⟩ := h.written file houtput
  have hput : (put data (pop plan r)).output =
      some { file with content := file.content ++ data } := by
    rw [put, pop, houtput]
    rfl
  refine h.next hplan hlength hsha rfl rfl rfl rfl rfl rfl rfl rfl ?_ ?_ ?_
  · intro hnone
    rw [advance, hput] at hnone
    cases hnone
  · intro file' hfile'
    rw [advance, hput] at hfile'
    cases hfile'
    exact ⟨by rw [hcontent], hinode⟩
  · rw [advance, hput]
    exact h.temp.trans (by rw [houtput]; rfl)

/-- The bytes that came over the wire are counted once there is a copy. -/
theorem Holds.counted (h : Holds sha r₀ blocks r) (houtput : r.output.isSome = true) (n : ℕ) :
    Holds sha r₀ blocks (count n r) := by
  refine ⟨h.path, h.old, h.blockSize, h.size, h.fits, h.offset, h.chain, h.plan, h.decided, ?_,
    h.written, h.temp⟩
  intro hnone
  rw [show r.output = none from hnone] at houtput
  cases houtput

theorem isSome_put (r : Receiver) (data : Bytes) :
    (put data r).output.isSome = r.output.isSome := by
  rw [put, Option.isSome_map]

/-- A block that was asked for is taken. -/
theorem Holds.write (h : Holds sha r₀ blocks r) (hpos : 0 < r₀.blockSize)
    (hplan : r.plan = planned :: plan) (hmatched : planned.matched = false) {data : Bytes}
    (hlength : data.length = planned.length) (hsha : sha data = planned.signature) :
    ∃ r', (write sha data).run r = .ok .unit r' ∧ Holds sha r₀ (blocks ++ [data]) r' ∧
      r'.plan = plan ∧ r'.output.isSome = true ∧ r'.transferred = r.transferred + data.length ∧
      r'.reused = r.reused := by
  have happend := append_run (r := pop plan r) (h.blockSize ▸ hpos)
    (fun houtput => h.length_block houtput) data planned.signature
  rw [opened_pop] at happend
  have hrun : (Receiver.write sha data).run r = .ok .unit
      (count data.length
        (advance planned.signature data.length (put data (pop plan r.opened)))) := by
    simp only [Receiver.write, EStateM.run_bind, EStateM.run_get, hplan, hmatched]
    simp [hlength, hsha, happend]
  obtain ⟨file, hfile⟩ := Option.isSome_iff_exists.mp r.isSome_opened
  have htaken := h.opened.taken hfile (r.plan_opened.trans hplan) hlength hsha
  rw [← hlength] at htaken
  have hsome : (put data (pop plan r.opened)).output.isSome = true :=
    (isSome_put ..).trans r.isSome_opened
  refine ⟨_, hrun, htaken.counted hsome _, rfl, hsome, ?_, r.reused_opened⟩
  exact congrArg (fun transferred => transferred + data.length) r.transferred_opened

/-- A block that the destination holds is taken. -/
theorem Holds.keep (h : Holds sha r₀ blocks r) (hplan : r.plan = planned :: plan)
    (hmatched : planned.matched = true) :
    ∃ r', (Receiver.keep planned.length planned.signature).run (pop plan r) = .ok .unit r' ∧
      Holds sha r₀ (blocks ++ [r₀.block r.offset planned.length]) r' ∧ r'.plan = plan ∧
      r'.output.isSome = r.output.isSome ∧ r'.transferred = r.transferred ∧
      r'.reused = r.reused := by
  have hplans := h.plan
  rw [hplan] at hplans
  obtain ⟨-, -, hblock, -⟩ := hplans
  obtain ⟨hlength, hsha⟩ := hblock hmatched
  have hsame : (pop plan r).block (pop plan r).offset planned.length =
      r₀.block r.offset planned.length := h.block ..
  have hrun := keep_run (r := pop plan r) (by rw [hsame, hlength]) planned.signature
  refine ⟨_, hrun, ?_⟩
  cases houtput : r.output with
  | none =>
      have hcopied : (pop plan r).copied planned.length = pop plan r := by
        rw [copied, pop, houtput]
        rfl
      rw [hcopied]
      refine ⟨h.next hplan hlength hsha rfl rfl rfl rfl rfl rfl rfl rfl (fun _ => ?_) ?_ h.temp,
        rfl, ?_, rfl, rfl⟩
      · obtain ⟨hzero, hkept⟩ := h.kept houtput
        have hadd := r₀.block_add 0 r.offset planned.length
        rw [Nat.zero_add, hkept] at hadd
        exact ⟨hzero, hadd.symm⟩
      · intro file hfile
        rw [advance, pop, houtput] at hfile
        cases hfile
      · rw [advance, pop, houtput]
  | some file =>
      have hcopied : (pop plan r).copied planned.length =
          put (r₀.block r.offset planned.length) (pop plan r) := by
        rw [copied, hsame, pop, houtput]
        rfl
      rw [hcopied]
      refine ⟨h.taken houtput hplan hlength hsha, rfl, ?_, rfl, rfl⟩
      rw [← houtput]
      exact isSome_put ..

/-- The blocks at the front of the plan that the destination holds are taken. -/
theorem Holds.commitLoop (h : Holds sha r₀ blocks r) (hplan : r.plan = plan) :
    ∃ taken r', (commitLoop plan).run r = .ok .unit r' ∧ Holds sha r₀ (blocks ++ taken) r' ∧
      taken.map sha = (plan.takeWhile fun p => p.matched).map Planned.signature ∧
      r'.plan = plan.dropWhile (fun p => p.matched) ∧ r'.output.isSome = r.output.isSome ∧
      r'.transferred = r.transferred ∧ r'.reused = r.reused := by
  induction plan generalizing r blocks with
  | nil => exact ⟨[], r, rfl, by simpa using h, rfl, hplan, rfl, rfl, rfl⟩
  | cons planned plan ih =>
      cases hmatched : planned.matched with
      | false =>
          refine ⟨[], r, ?_, by simpa using h, ?_, ?_, rfl, rfl, rfl⟩
          · simp [Receiver.commitLoop, hmatched]
          · simp [hmatched]
          · simpa [hmatched] using hplan
      | true =>
          obtain ⟨r₁, hrun₁, h₁, hplan₁, houtput₁, htransferred₁, hreused₁⟩ := h.keep hplan hmatched
          obtain ⟨taken, r₂, hrun₂, h₂, hsha₂, hplan₂, houtput₂, htransferred₂, hreused₂⟩ :=
            ih h₁ hplan₁
          have hplans := h.plan
          rw [hplan] at hplans
          have hsha := (hplans.2.2.1 hmatched).2
          refine ⟨r₀.block r.offset planned.length :: taken, r₂, ?_, ?_, ?_, ?_,
            houtput₂.trans houtput₁, htransferred₂.trans htransferred₁, hreused₂.trans hreused₁⟩
          · simp [Receiver.commitLoop, hmatched, hrun₁, hrun₂]
          · simpa using h₂
          · simp [hmatched, hsha, hsha₂]
          · simpa [hmatched] using hplan₂

/-- The block that a signature plans can be planned: it follows the ones that are. -/
theorem Plans.snoc {offset : ℕ} (h : Plans sha r₀ offset plan) (hpos : 0 < planned.length)
    (hlength : planned.length =
      min r₀.blockSize (r₀.size - (offset + (plan.map Planned.length).sum)))
    (hmatched : planned.matched = true →
      (r₀.block (offset + (plan.map Planned.length).sum) planned.length).length = planned.length ∧
        sha (r₀.block (offset + (plan.map Planned.length).sum) planned.length) =
          planned.signature) :
    Plans sha r₀ offset (plan ++ [planned]) := by
  induction plan generalizing offset with
  | nil => exact ⟨hpos, hlength, hmatched, trivial⟩
  | cons first plan ih =>
      obtain ⟨hpos', hlength', hmatched', hrest⟩ := h
      simp only [List.map_cons, List.sum_cons, ← Nat.add_assoc] at hlength hmatched
      exact ⟨hpos', hlength', hmatched', ih hrest hlength hmatched⟩

/-- The block of the destination has the signature. -/
def agrees (sha : Bytes → Bytes) (r : Receiver) (offset length : ℕ) (signature : Bytes) : Bool :=
  (r.block offset length).length == length && sha (r.block offset length) == signature

/-- One more block is planned. -/
theorem Holds.schedule (h : Holds sha r₀ blocks r) {length : ℕ} (hpos : 0 < length)
    (hlength : length = min r₀.blockSize (r₀.size - r.decided)) (signature : Bytes) :
    Holds sha r₀ blocks
      (schedule length signature (agrees sha r₀ r.decided length signature) r) := by
  refine ⟨h.path, h.old, h.blockSize, h.size, h.fits, h.offset, h.chain, ?_, ?_, h.kept,
    h.written, h.temp⟩
  · refine h.plan.snoc hpos ?_ ?_
    · rw [← h.decided]
      exact hlength
    · rw [← h.decided]
      intro hmatched
      obtain ⟨hwhole, hsha⟩ := Bool.and_eq_true_iff.mp hmatched
      exact ⟨by simpa using hwhole, by simpa using hsha⟩
  · simp only [Receiver.schedule, List.map_append, List.sum_append, List.map_cons, List.map_nil,
      List.sum_cons, List.sum_nil, h.decided]
    omega

/-- A signature of the right length plans the next block. -/
theorem decide_ok (h : Holds sha r₀ blocks r) {length : ℕ} (hpos : 0 < length)
    (hlength : length = min r₀.blockSize (r₀.size - r.decided)) (signature : Bytes) :
    (decide sha length signature).run r =
      .ok (agrees sha r₀ r.decided length signature)
        (Receiver.schedule length signature (agrees sha r₀ r.decided length signature) r) := by
  have hagrees : agrees sha r r.decided length signature =
      agrees sha r₀ r.decided length signature := by
    rw [agrees, agrees, h.block]
  have hgood : ¬ ((length : ℤ) ≤ 0 ∨ (length : ℤ) ≠ min (r.blockSize : ℤ) (r.size - r.decided)) := by
    rw [h.blockSize, h.size]
    omega
  rw [← hagrees]
  simp only [decide, EStateM.run_bind, EStateM.run_get, if_neg hgood]
  rfl

/-- A signature plans the next block, if it has the right length. -/
theorem decide_run (h : Holds sha r₀ blocks r) (length : ℤ) (signature : Bytes) :
    (∃ n : ℕ, length = n ∧ 0 < n ∧ n = min r₀.blockSize (r₀.size - r.decided) ∧
      (decide sha length signature).run r =
        .ok (agrees sha r₀ r.decided n signature)
          (Receiver.schedule n signature (agrees sha r₀ r.decided n signature) r)) ∨
    (decide sha length signature).run r = .error .invalidSignature r := by
  by_cases hbad : length ≤ 0 ∨ length ≠ min (r.blockSize : ℤ) (r.size - r.decided)
  · right
    simp only [decide, EStateM.run_bind, EStateM.run_get, if_pos hbad]
    rfl
  · left
    obtain ⟨hpos, heq⟩ := not_or.mp hbad
    rw [not_not, h.blockSize, h.size] at heq
    obtain ⟨n, rfl⟩ : ∃ n : ℕ, length = n := ⟨length.toNat, by omega⟩
    have hlength : n = min r₀.blockSize (r₀.size - r.decided) := by omega
    exact ⟨n, rfl, by omega, hlength, decide_ok h (by omega) hlength signature⟩

/-- The session has accepted these signatures. -/
def Inv (sha : Bytes → Bytes) (r₀ : Receiver) (signatures : List Bytes) (r : Receiver) : Prop :=
  ∃ blocks, Holds sha r₀ blocks r ∧
    blocks.map sha ++ r.plan.map Planned.signature = signatures

variable {signatures : List Bytes}

theorem verify_run (h : check r.old r.path = .ok ()) : verify.run r = .ok .unit r := by
  simp [verify, h]

theorem verify_error {error : SyncError} (h : check r.old r.path = .error error) :
    verify.run r = .error error r := by
  simp only [verify, EStateM.run_bind, EStateM.run_get, h]
  rfl

theorem Holds.check (h : Holds sha r₀ blocks r) (hcheck : check r₀.old r₀.path = .ok ()) :
    check r.old r.path = .ok () := by
  rw [h.old, h.path]
  exact hcheck

/-- A transfer that is complete is installed, unless the destination holds it. -/
theorem finish_ok (h : Holds sha r₀ blocks r) (hpos : 0 < r₀.blockSize)
    (hcheck : FileSync.check r₀.old r₀.path = .ok ()) (hoffset : r.offset = r.size) :
    (finish sha (sha r.chain)).run r = .ok ⟨r.changed, r.size, r.transferred, r.reused⟩
      (if r.changed then r.opened.replace else r) := by
  have hverify := verify_run (h.check hcheck)
  have hverify' := verify_run (h.opened.check hcheck)
  have hwhole : ¬ r.offset ≠ r.size := not_not.mpr hoffset
  have hdigest : ¬ sha r.chain ≠ sha r.chain := not_not.mpr rfl
  cases hchanged : r.changed with
  | false =>
      simp only [finish, EStateM.run_bind, EStateM.run_get, if_neg hwhole, if_neg hdigest, hverify,
        hchanged]
      rfl
  | true =>
      cases houtput : r.output with
      | none =>
          have hstart := start_run (h.blockSize ▸ hpos) (h.length_block houtput)
          have hopened : r.opened = r.started := by simp [Receiver.opened, houtput]
          rw [hopened] at hverify' ⊢
          simp only [finish, EStateM.run_bind, EStateM.run_get, if_neg hwhole, if_neg hdigest,
            hverify, hchanged]
          simp only [↓reduceIte, houtput, Option.isNone_none, bind_pure_comp, EStateM.run_bind, hstart,
            hverify']
          rfl
      | some file =>
          have hopened : r.opened = r := by simp [Receiver.opened, houtput]
          rw [hopened]
          simp only [finish, EStateM.run_bind, EStateM.run_get, if_neg hwhole, if_neg hdigest,
            hverify, hchanged]
          simp only [↓reduceIte, houtput, Option.isNone_some, Bool.false_eq_true, bind_pure_comp,
            EStateM.run_bind, hverify]
          rfl

/-- The destination was replaced by content that has these signatures. -/
structure Installed (sha : Bytes → Bytes) (r₀ : Receiver) (signatures : List Bytes) (file : File)
    (r : Receiver) : Prop where
  path : r.path = .regular file
  old : r.old = r₀.old
  inode : file.inode = (r₀.old.map fun file => file.inode + 1).getD 0
  length : file.content.length = r₀.size
  blocks : (Blocks.cut r₀.blockSize file.content).map sha = signatures

theorem Holds.installed (h : Holds sha r₀ blocks r) (hoffset : r.offset = r.size) :
    ∃ file, Installed sha r₀ (blocks.map sha) file r.opened.replace := by
  obtain ⟨file, hfile⟩ := Option.isSome_iff_exists.mp r.isSome_opened
  obtain ⟨hcontent, hinode⟩ := h.opened.written file hfile
  have hlength : blocks.flatten.length = r₀.size := by rw [← h.offset, hoffset, h.size]
  have hreplace : r.opened.replace = { r.opened with path := .regular file, temp := false } := by
    simp [replace, hfile]
  rw [hreplace]
  refine ⟨file, rfl, h.opened.old, hinode, ?_, ?_⟩
  · rw [hcontent, hlength]
  · rw [hcontent, Blocks.cut_flatten]
    rw [hlength]
    exact h.fits

/-- A session whose destination was replaced raises in every step. -/
theorem Installed.step {file : File} (h : Installed sha r₀ signatures file r) (message : Message) :
    ∃ error, (step sha message).run r = .error error r := by
  have hcheck : ∃ error, FileSync.check r.old r.path = .error error := by
    rw [h.old, h.path]
    have hinode := h.inode
    cases hold : r₀.old with
    | none => exact ⟨.appeared, rfl⟩
    | some file' =>
        rw [hold] at hinode
        refine ⟨.fileChanged, ?_⟩
        rw [FileSync.check, if_neg]
        rintro ⟨hsame, -⟩
        simp only [Option.map_some, Option.getD_some] at hinode
        omega
  obtain ⟨error, herror⟩ := hcheck
  exact ⟨error, run_bind_error (verify_error herror)⟩

/-- What a step that returned leaves behind. -/
def Answered (sha : Bytes → Bytes) (r₀ : Receiver) (signatures : List Bytes) (message : Message)
    (reply : Reply) (r : Receiver) : Prop :=
  Inv sha r₀ signatures r ∨ ∃ result batch file, reply = .result result ∧ result.changed = true ∧
    message = .batch batch ∧ batch.digest = some (sha signatures.flatten) ∧
    Installed sha r₀ signatures file r

/-- The session after a step, whether it returned or raised. -/
def after (sha : Bytes → Bytes) (r : Receiver) (message : Message) : Receiver :=
  match (step sha message).run r with
  | .ok _ r' => r'
  | .error _ r' => r'

/-- The session after a sequence of messages. -/
def deliver (sha : Bytes → Bytes) (r : Receiver) (messages : List Message) : Receiver :=
  messages.foldl (after sha) r

/-- The signatures that a session accepted: all of a message whose step returned, and the
first ones of a message whose step raised. -/
inductive Accepted (sha : Bytes → Bytes) (r₀ : Receiver) : List Message → List Bytes → Prop where
  | nil : Accepted sha r₀ [] []
  | snoc {messages : List Message} {signatures : List Bytes} (message : Message)
      (accepted : List Bytes) (h : Accepted sha r₀ messages signatures)
      (hfirst : accepted <+: message.signatures)
      (hall : ∀ reply r, (step sha message).run (deliver sha r₀ messages) = .ok reply r →
        accepted = message.signatures) :
      Accepted sha r₀ (messages ++ [message]) (signatures ++ accepted)

/-- The path names what was opened. -/
theorem check_openOld {path : Node} {old : Option File} (h : openOld path = .ok old) :
    FileSync.check old path = .ok () := by
  cases path with
  | absent =>
      cases h
      rfl
  | regular file =>
      cases h
      simp [FileSync.check]
  | symlink => cases h
  | special => cases h

/-- A session that was opened has taken nothing. -/
theorem new_inv (sha : Bytes → Bytes) {path : Node} {blockSize size : ℤ}
    (hnew : new path blockSize size = .ok r₀) :
    r₀.path = path ∧ (r₀.blockSize : ℤ) = blockSize ∧ (r₀.size : ℤ) = size ∧
      0 < r₀.blockSize ∧ FileSync.check r₀.old r₀.path = .ok () ∧ Inv sha r₀ [] r₀ := by
  by_cases hblock : 0 < blockSize ∧ blockSize ≤ maxBlockSize
  case neg =>
    rw [new, checkBlockSize, if_neg hblock] at hnew
    cases hnew
  by_cases hsize : size < 0
  case pos =>
    rw [new, checkBlockSize, if_pos hblock] at hnew
    simp only [if_pos hsize] at hnew
    cases hnew
  cases hold : openOld path with
  | error error =>
      rw [new, checkBlockSize, if_pos hblock, hold] at hnew
      simp only [if_neg hsize] at hnew
      cases hnew
  | ok old =>
      rw [new, checkBlockSize, if_pos hblock, hold] at hnew
      simp only [if_neg hsize] at hnew
      cases hnew
      refine ⟨rfl, Int.toNat_of_nonneg hblock.1.le, Int.toNat_of_nonneg (not_lt.mp hsize),
        by simpa using hblock.1, check_openOld hold, [], ?_, rfl⟩
      refine ⟨rfl, rfl, rfl, rfl, trivial, rfl, rfl, trivial, rfl, fun _ => ⟨rfl, ?_⟩, nofun, rfl⟩
      exact List.eq_nil_of_length_eq_zero (Nat.le_zero.mp (length_block_le ..))

/-- The SHA-256 of the byte `a`. -/
def digestA : Bytes :=
  [202, 151, 129, 18, 202, 27, 189, 202, 250, 194, 49, 179, 154, 35, 220, 77, 167, 134, 239, 248,
    20, 124, 78, 114, 185, 128, 119, 133, 175, 238, 72, 187]

/-- The SHA-256 of `digestA`. -/
def digestAA : Bytes :=
  [191, 93, 58, 255, 183, 62, 253, 46, 198, 195, 106, 211, 17, 45, 217, 51, 239, 237, 99, 196,
    225, 203, 255, 207, 168, 142, 39, 89, 193, 68, 242, 216]

/-- A hash that is SHA-256 on these two inputs. -/
def sampleSha (data : Bytes) : Bytes :=
  if data = [97] then digestA else if data = digestA then digestAA else 0 :: data

end Receiver

end FileSync

end Rmote
