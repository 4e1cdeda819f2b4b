import Rmote.FileSync.Sender

/-!
# Both sessions of a file synchronization

The blocks of the source are cut once and pass through three queues: the receiver has
taken the first of them, plans the ones after these, and the sender has not signed the
rest. `Taken` says so for the receiver and `Agree` for both. In every round a block is
taken or a block is signed, so the exchange comes to its end, and then the receiver has
taken them all.
-/

namespace Rmote

namespace FileSync

open Hoare Sender

/-! ## The blocks of the source -/

/-- The blocks of a file from an offset on. -/
def remaining (blockSize size offset : ℕ) : List (ℕ × ℕ) := upcoming blockSize size size offset

/-- The content of a block of the source. -/
def piece (source : Bytes) (block : ℕ × ℕ) : Bytes := readAt source block.1 block.2

section

variable {blockSize size limit offset : ℕ} {before after : List (ℕ × ℕ)} {block : ℕ × ℕ}

theorem upcoming_of_le (h : size ≤ offset) (limit : ℕ) : upcoming blockSize size limit offset = [] := by
  cases limit with
  | zero => rfl
  | succ limit => rw [upcoming, if_neg (not_lt.mpr h)]

theorem upcoming_add (blockSize size limit limit' offset : ℕ) :
    upcoming blockSize size (limit + limit') offset =
      upcoming blockSize size limit offset ++
        upcoming blockSize size limit' (offset + bytes (upcoming blockSize size limit offset)) := by
  induction limit generalizing offset with
  | zero => simp [upcoming]
  | succ limit ih =>
      rw [Nat.succ_add, upcoming, upcoming]
      split_ifs with hmore
      · rw [ih, bytes_cons, List.cons_append, Nat.add_assoc]
      · rw [bytes_nil, Nat.add_zero, upcoming_of_le (not_lt.mp hmore)]
        rfl

/-- Enough blocks reach the end of the file. -/
theorem bytes_upcoming (hpos : 0 < blockSize) (hlimit : size - offset ≤ limit) :
    bytes (upcoming blockSize size limit offset) = size - offset := by
  induction limit generalizing offset with
  | zero =>
      rw [upcoming, bytes_nil]
      omega
  | succ limit ih =>
      rw [upcoming]
      split_ifs with hmore
      · rw [bytes_cons, ih (by omega)]
        omega
      · rw [bytes_nil]
        omega

theorem remaining_split (hpos : 0 < blockSize) (size limit offset : ℕ) :
    remaining blockSize size offset =
      upcoming blockSize size limit offset ++
        remaining blockSize size (offset + bytes (upcoming blockSize size limit offset)) := by
  have henough : upcoming blockSize size (limit + size) offset =
      upcoming blockSize size size offset := by
    have hend : size ≤ offset + bytes (upcoming blockSize size size offset) := by
      rw [bytes_upcoming hpos (Nat.sub_le _ _)]
      omega
    rw [Nat.add_comm, upcoming_add, upcoming_of_le hend, List.append_nil]
  rw [remaining, ← henough, upcoming_add]
  rfl

theorem remaining_cons (hpos : 0 < blockSize)
    (h : remaining blockSize size offset = block :: after) :
    after = remaining blockSize size (offset + block.2) := by
  have hsplit := remaining_split hpos size 1 offset
  rw [h, upcoming] at hsplit
  split_ifs at hsplit with hmore
  · obtain ⟨rfl, hafter⟩ := List.cons.inj hsplit
    exact hafter
  · rw [List.nil_append, bytes_nil, Nat.add_zero, remaining, upcoming_of_le (not_lt.mp hmore)] at hsplit
    cases hsplit

/-- A block stands where the ones before it end. -/
theorem upcoming_block (h : upcoming blockSize size limit offset = before ++ block :: after) :
    block.1 = offset + bytes before ∧ block.1 < size ∧ block.2 = min blockSize (size - block.1) := by
  induction before generalizing limit offset with
  | nil =>
      cases limit with
      | zero => cases h
      | succ limit =>
          rw [upcoming] at h
          split_ifs at h with hmore
          · cases h
            exact ⟨rfl, hmore, rfl⟩
          · cases h
  | cons first before ih =>
      cases limit with
      | zero => cases h
      | succ limit =>
          rw [upcoming] at h
          split_ifs at h with hmore
          · obtain ⟨hfirst, hrest⟩ := List.cons.inj h
            obtain ⟨hoffset, hlt, hlength⟩ := ih hrest
            refine ⟨?_, hlt, hlength⟩
            rw [hoffset, ← hfirst, bytes_cons, Nat.add_assoc]
          · cases h

theorem length_piece {source : Bytes} (hlt : block.1 < source.length)
    (hlength : block.2 = min blockSize (source.length - block.1)) :
    (piece source block).length = block.2 := by
  rw [piece, length_readAt]
  omega

/-- The blocks of a file with their content. -/
theorem map_upcoming (blockSize : ℕ) (source : Bytes) (limit offset : ℕ) :
    (upcoming blockSize source.length limit offset).map (fun block => (block.1, piece source block)) =
      Blocks.place offset (Blocks.cutAux blockSize limit (source.drop offset)) := by
  induction limit generalizing offset with
  | zero => rfl
  | succ limit ih =>
      rw [upcoming, Blocks.cutAux]
      by_cases hmore : offset < source.length
      · have hempty : (source.drop offset).isEmpty = false := by simpa using hmore
        have htake : piece source (offset, min blockSize (source.length - offset)) =
            (source.drop offset).take blockSize := by
          rw [piece, readAt, ← List.length_drop, ← List.take_eq_take_min]
        have hdrop : source.drop (offset + min blockSize (source.length - offset)) =
            (source.drop offset).drop blockSize := by
          rw [List.drop_drop]
          rcases le_total blockSize (source.length - offset) with hle | hle
          · rw [min_eq_left hle]
          · rw [min_eq_right hle, List.drop_of_length_le (by omega), List.drop_of_length_le (by omega)]
        rw [if_pos hmore, hempty, List.map_cons, ih, htake, hdrop]
        simp [Blocks.place]
      · have hempty : (source.drop offset).isEmpty = true := by simpa using hmore
        rw [if_neg hmore, hempty]
        rfl

theorem map_snd_place {α : Type*} (offset : ℕ) (blocks : List (List α)) :
    (Blocks.place offset blocks).map Prod.snd = blocks := by
  induction blocks generalizing offset with
  | nil => rfl
  | cons block blocks ih => rw [Blocks.place, List.map_cons, ih]

/-- All blocks make up the source. -/
theorem flatten_pieces (hpos : 0 < blockSize) (source : Bytes) :
    ((remaining blockSize source.length 0).map (piece source)).flatten = source := by
  have hplace := congrArg (List.map Prod.snd) (map_upcoming blockSize source source.length 0)
  rw [List.map_map, map_snd_place, List.drop_zero] at hplace
  exact (congrArg List.flatten hplace).trans (Blocks.flatten_cut hpos source)

theorem length_flatten_pieces {source : Bytes}
    (h : remaining blockSize source.length 0 = before ++ after) :
    (before.map (piece source)).flatten.length = bytes before := by
  induction before using List.reverseRecOn generalizing after with
  | nil => rfl
  | append_singleton before block ih =>
      rw [List.append_assoc, List.singleton_append] at h
      obtain ⟨-, hlt, hlength⟩ := upcoming_block h
      have hpiece := length_piece hlt hlength
      have hbefore := ih h
      simp [bytes] at hbefore ⊢
      omega

end

/-! ## The receiver -/

/-- The destination holds the same bytes at the place of a block. -/
def same (source : Bytes) (r₀ : Receiver) (block : ℕ × ℕ) : Bool :=
  r₀.block block.1 block.2 == piece source block

/-- The destination does not hold a block. -/
def differs (source : Bytes) (r₀ : Receiver) (block : ℕ × ℕ) : Bool := !same source r₀ block

/-- What the receiver plans for a block of the source. -/
def toPlan (sha : Bytes → Bytes) (source : Bytes) (r₀ : Receiver) (block : ℕ × ℕ) : Planned where
  length := block.2
  signature := sha (piece source block)
  matched := same source r₀ block

/-- The receiver has taken the first blocks of the source, and plans the next ones. -/
structure Taken (sha : Bytes → Bytes) (source : Bytes) (r₀ : Receiver)
    (taken planned : List (ℕ × ℕ)) (r : Receiver) : Prop where
  holds : Receiver.Holds sha r₀ (taken.map (piece source)) r
  split : remaining r₀.blockSize source.length 0 =
    (taken ++ planned) ++ remaining r₀.blockSize source.length (bytes (taken ++ planned))
  plan : r.plan = planned.map (toPlan sha source r₀)
  transferred : r.transferred = bytes (taken.filter (differs source r₀))
  reused : r.reused = bytes ((taken ++ planned).filter (same source r₀))
  output : r.output.isSome = taken.any (differs source r₀)

/-- The two sides compare blocks and never meet a collision. -/
structure Setting (sha : Bytes → Bytes) (source : Bytes) (r₀ : Receiver) : Prop where
  pos : 0 < r₀.blockSize
  size : r₀.size = source.length
  check : check r₀.old r₀.path = .ok ()
  collision : ∀ block, sha (r₀.block block.1 block.2) = sha (piece source block) →
    r₀.block block.1 block.2 = piece source block

variable {sha : Bytes → Bytes} {source : Bytes} {r₀ r : Receiver} {s : Sender}
  {taken planned signing : List (ℕ × ℕ)} {block : ℕ × ℕ} {result : SyncResult}

@[simp] theorem bytes_append (blocks blocks' : List (ℕ × ℕ)) :
    bytes (blocks ++ blocks') = bytes blocks + bytes blocks' := by
  simp [bytes]

/-- The first planned block stands where the receiver is. -/
theorem Taken.first (h : Taken sha source r₀ taken (block :: planned) r) :
    block.1 = r.offset ∧ 0 < block.2 ∧ (piece source block).length = block.2 := by
  have hsplit := h.split
  rw [List.append_assoc, List.cons_append] at hsplit
  obtain ⟨hoffset, hlt, hlength⟩ := upcoming_block hsplit
  have htaken := length_flatten_pieces hsplit
  rw [← h.holds.offset] at htaken
  have hpos := h.holds.plan
  rw [h.plan] at hpos
  refine ⟨by omega, hpos.1, length_piece hlt hlength⟩

theorem Taken.decided (h : Taken sha source r₀ taken planned r) :
    r.decided = bytes (taken ++ planned) := by
  have hsplit := h.split
  rw [List.append_assoc] at hsplit
  have hlengths : (r.plan.map Planned.length).sum = bytes planned := by
    rw [h.plan, List.map_map]
    rfl
  rw [h.holds.decided, h.holds.offset, length_flatten_pieces hsplit, hlengths, bytes_append]

/-- A block that differs is written. -/
theorem Taken.write (hset : Setting sha source r₀)
    (h : Taken sha source r₀ taken (block :: planned) r) (hdiffers : same source r₀ block = false) :
    ∃ r', (Receiver.write sha (piece source block)).run r = .ok .unit r' ∧
      Taken sha source r₀ (taken ++ [block]) planned r' := by
  obtain ⟨-, -, hlength⟩ := h.first
  obtain ⟨r', hrun, hholds, hplan, houtput, htransferred, hreused⟩ :=
    h.holds.write hset.pos h.plan hdiffers hlength rfl
  refine ⟨r', hrun, ?_, ?_, hplan, ?_, ?_, ?_⟩
  · rw [List.map_append]
    exact hholds
  · rw [← List.append_cons]
    exact h.split
  · rw [htransferred, h.transferred, List.filter_append, bytes_append, hlength]
    simp [differs, hdiffers]
  · rw [hreused, h.reused, List.append_assoc]
    rfl
  · rw [houtput, List.any_append]
    simp [differs, hdiffers]

/-- A block that the destination holds is kept. -/
theorem Taken.keep (h : Taken sha source r₀ taken (block :: planned) r)
    (hsame : same source r₀ block = true) :
    ∃ r', (Receiver.keep block.2 (sha (piece source block))).run
        (Receiver.pop (planned.map (toPlan sha source r₀)) r) = .ok .unit r' ∧
      Taken sha source r₀ (taken ++ [block]) planned r' := by
  obtain ⟨hoffset, -, -⟩ := h.first
  obtain ⟨r', hrun, hholds, hplan, houtput, htransferred, hreused⟩ := h.holds.keep h.plan hsame
  have hpiece : r₀.block r.offset block.2 = piece source block := by
    rw [← hoffset]
    exact beq_iff_eq.mp hsame
  refine ⟨r', hrun, ?_, ?_, hplan, ?_, ?_, ?_⟩
  · rw [List.map_append, List.map_singleton, ← hpiece]
    exact hholds
  · rw [← List.append_cons]
    exact h.split
  · rw [htransferred, h.transferred, List.filter_append]
    simp [differs, hsame]
  · rw [hreused, h.reused, List.append_assoc]
    rfl
  · rw [houtput, h.output, List.any_append]
    simp [differs, hsame]

theorem Taken.commit (h : Taken sha source r₀ taken planned r) :
    ∃ r', Receiver.commit.run r = .ok .unit r' ∧
      Taken sha source r₀ (taken ++ planned.takeWhile (same source r₀))
        (planned.dropWhile (same source r₀)) r' := by
  have hcommit : Receiver.commit.run r =
      (Receiver.commitLoop (planned.map (toPlan sha source r₀))).run r := by
    rw [← h.plan]
    rfl
  rw [hcommit]
  clear hcommit
  induction planned generalizing taken r with
  | nil => exact ⟨r, rfl, by simpa using h⟩
  | cons block planned ih =>
      rw [List.map_cons, Receiver.commitLoop]
      cases hsame : same source r₀ block with
      | false =>
          refine ⟨r, ?_, by simpa [hsame] using h⟩
          rw [if_neg (by simp [toPlan, hsame])]
          rfl
      | true =>
          obtain ⟨r₁, hrun, h₁⟩ := h.keep hsame
          obtain ⟨r₂, hrun₂, h₂⟩ := ih h₁
          refine ⟨r₂, ?_, by simpa [hsame] using h₂⟩
          rw [if_pos (by simp [toPlan, hsame])]
          simp only [EStateM.run_bind, EStateM.run_modify]
          rw [show (toPlan sha source r₀ block).length = block.2 from rfl,
            show (toPlan sha source r₀ block).signature = sha (piece source block) from rfl, hrun]
          exact hrun₂

/-- The first planned block is one that the receiver waits for. -/
def Blocked (source : Bytes) (r₀ : Receiver) (planned : List (ℕ × ℕ)) : Prop :=
  ∀ block rest, planned = block :: rest → same source r₀ block = false

theorem blocked_dropWhile (planned : List (ℕ × ℕ)) :
    Blocked source r₀ (planned.dropWhile (same source r₀)) := by
  intro block rest heq
  have hhead := List.head?_dropWhile_not (same source r₀) planned
  rw [heq] at hhead
  simpa using hhead

/-- What the receiver waits for is not among the blocks that it can take by itself. -/
theorem filter_dropWhile (planned : List (ℕ × ℕ)) :
    (planned.dropWhile (same source r₀)).filter (differs source r₀) =
      planned.filter (differs source r₀) := by
  induction planned with
  | nil => rfl
  | cons block planned ih =>
      cases hsame : same source r₀ block with
      | false => rw [List.dropWhile_cons_of_neg (by simp [hsame])]
      | true =>
          rw [List.dropWhile_cons_of_pos hsame, ih, List.filter_cons_of_neg]
          simp [differs, hsame]

/-- The requested blocks are written, and the ones between them are kept. -/
theorem Taken.receiveLoop (hset : Setting sha source r₀) {served waiting : List (ℕ × ℕ)}
    (h : Taken sha source r₀ taken planned r) (hblocked : Blocked source r₀ planned)
    (hasked : planned.filter (differs source r₀) = served ++ waiting) :
    ∃ taken' planned' r', (Receiver.receiveLoop sha (served.map (piece source))).run r = .ok .unit r' ∧
      Taken sha source r₀ taken' planned' r' ∧ Blocked source r₀ planned' ∧
      planned'.filter (differs source r₀) = waiting ∧ taken' ++ planned' = taken ++ planned ∧
      bytes taken + bytes served ≤ bytes taken' := by
  induction served generalizing taken planned r with
  | nil => exact ⟨taken, planned, r, rfl, h, hblocked, hasked, rfl, le_rfl⟩
  | cons block served ih =>
      cases planned with
      | nil => cases hasked
      | cons first planned =>
          have hdiffers := hblocked first planned rfl
          rw [List.filter_cons_of_pos (by simp [differs, hdiffers]), List.cons_append] at hasked
          obtain ⟨rfl, hrest⟩ := List.cons.inj hasked
          obtain ⟨r₁, hrun₁, h₁⟩ := h.write hset hdiffers
          obtain ⟨r₂, hrun₂, h₂⟩ := h₁.commit
          obtain ⟨taken', planned', r₃, hrun₃, h₃, hblocked₃, hwaiting, hall, hle⟩ :=
            ih h₂ (blocked_dropWhile planned) (by rw [filter_dropWhile, hrest])
          refine ⟨taken', planned', r₃, ?_, h₃, hblocked₃, hwaiting, ?_, ?_⟩
          · rw [List.map_cons, Receiver.receiveLoop, run_bind_ok hrun₁, run_bind_ok hrun₂]
            exact hrun₃
          · rw [hall, List.append_assoc, List.takeWhile_append_dropWhile, ← List.append_cons]
          · simp only [bytes_append, bytes_cons, bytes_nil] at hle ⊢
            omega

/-- The destination block agrees with a signature when its bytes are the same. -/
theorem Setting.agrees (hset : Setting sha source r₀) (hlength : (piece source block).length = block.2) :
    Receiver.agrees sha r₀ block.1 block.2 (sha (piece source block)) = same source r₀ block := by
  rw [Bool.eq_iff_iff, Receiver.agrees, Bool.and_eq_true_iff, beq_iff_eq, beq_iff_eq, same, beq_iff_eq]
  constructor
  · exact fun h => hset.collision block h.2
  · intro h
    rw [h]
    exact ⟨hlength, rfl⟩

/-- The signatures of the next blocks are decided. -/
theorem Taken.decideLoop (hset : Setting sha source r₀) (h : Taken sha source r₀ taken planned r)
    (hsigning : remaining r₀.blockSize source.length (bytes (taken ++ planned)) =
      signing ++ remaining r₀.blockSize source.length (bytes (taken ++ planned) + bytes signing)) :
    ∃ r', (Receiver.decideLoop sha
        (signing.map fun block => ((block.2 : ℤ), sha (piece source block)))).run r =
          .ok (signing.map (same source r₀)) r' ∧
      Taken sha source r₀ taken (planned ++ signing) r' := by
  induction signing generalizing planned r with
  | nil => exact ⟨r, rfl, by simpa using h⟩
  | cons block signing ih =>
      have hblock := hsigning
      rw [← List.nil_append (block :: signing), List.append_assoc, List.cons_append] at hblock
      obtain ⟨hoffset, hlt, hlength⟩ := upcoming_block hblock
      have hdecided : r.decided = block.1 := by
        rw [h.decided, hoffset, bytes_nil, Nat.add_zero]
      have hpiece := length_piece hlt hlength
      have hpos : 0 < block.2 := by
        have := hset.pos
        omega
      have hmin : block.2 = min r₀.blockSize (r₀.size - r.decided) := by
        rw [hdecided, hset.size]
        exact hlength
      have hrun := Receiver.decide_ok h.holds hpos hmin (sha (piece source block))
      have hholds := h.holds.schedule hpos hmin (sha (piece source block))
      rw [hdecided, hset.agrees hpiece] at hrun hholds
      have hnext := remaining_cons hset.pos hsigning
      have hbytes : bytes (taken ++ (planned ++ [block])) = bytes (taken ++ planned) + block.2 := by
        simp [Nat.add_assoc]
      have h₁ : Taken sha source r₀ taken (planned ++ [block])
          (Receiver.schedule block.2 (sha (piece source block)) (same source r₀ block) r) := by
        refine ⟨hholds, ?_, ?_, h.transferred, ?_, h.output⟩
        · rw [hbytes, ← hnext, h.split, hsigning]
          simp
        · rw [Receiver.schedule, h.plan, List.map_append]
          rfl
        · rw [Receiver.schedule, h.reused, ← List.append_assoc, List.filter_append, bytes_append]
          cases hsame : same source r₀ block <;> simp [hsame, Nat.add_assoc]
      obtain ⟨r₂, hrun₂, h₂⟩ := ih h₁ (by
        rw [hbytes, ← hnext, bytes_cons, Nat.add_assoc]
        rfl)
      refine ⟨r₂, ?_, by simpa using h₂⟩
      simp only [List.map_cons, Receiver.decideLoop, EStateM.run_bind, hrun, hrun₂]
      rfl

/-! ## Both sessions -/

/-- Between two rounds the sessions agree on the blocks that were taken and that are planned,
and the sender knows what the receiver waits for. -/
structure Agree (sha : Bytes → Bytes) (source : Bytes) (r₀ : Receiver) (taken planned : List (ℕ × ℕ))
    (s : Sender) (r : Receiver) (decisions : Decisions) : Prop where
  sound : s.Sound
  content : s.old.content = source
  blockSize : s.blockSize = r₀.blockSize
  receiver : Taken sha source r₀ taken planned r
  blocked : Blocked source r₀ planned
  offset : s.offset = bytes (taken ++ planned)
  chain : s.chain = ((taken ++ planned).map fun block => sha (piece source block)).flatten
  fitting : s.Fitting decisions
  asked : s.asked decisions = planned.filter (differs source r₀)

theorem Agree.size {decisions : Decisions} (h : Agree sha source r₀ taken planned s r decisions) :
    s.size = source.length := by
  rw [h.sound.size, h.content]

/-- A receiver that waits for nothing plans nothing. -/
theorem Blocked.eq_nil (h : Blocked source r₀ planned)
    (hnothing : planned.filter (differs source r₀) = []) : planned = [] := by
  cases planned with
  | nil => rfl
  | cons block planned =>
      rw [List.filter_cons_of_pos (by simp [differs, h block planned rfl])] at hnothing
      cases hnothing

/-- What the receiver does with the message of a round, before it looks at the digest. -/
theorem Agree.received (hset : Setting sha source r₀) {decisions : Decisions}
    (h : Agree sha source r₀ taken planned s r decisions) :
    ∃ taken₁ planned₁ r₁ r₂ r₃,
      (Receiver.receiveLoop sha (s.batch sha decisions).blocks).run r = .ok .unit r₁ ∧
      (Receiver.decideLoop sha (s.batch sha decisions).signatures).run r₁ =
        .ok ((s.signing decisions).map (same source r₀)) r₂ ∧
      Receiver.commit.run r₂ = .ok .unit r₃ ∧
      Taken sha source r₀ taken₁ planned₁ r₃ ∧ Blocked source r₀ planned₁ ∧
      taken₁ ++ planned₁ = taken ++ planned ++ s.signing decisions ∧
      planned₁.filter (differs source r₀) = (s.stepped sha decisions).requests ++
        (s.signing decisions).filter (differs source r₀) ∧
      bytes taken + bytes (s.serving decisions) ≤ bytes taken₁ := by
  have hblock : s.block = piece source := by
    funext block
    rw [Sender.block, h.content]
    rfl
  obtain ⟨taken', planned', r₁, hrun₁, h₁, hblocked₁, hwaiting, hall, hle⟩ :=
    h.receiver.receiveLoop hset h.blocked (h.asked.symm.trans (serve_append ..).symm)
  have hsigning : remaining r₀.blockSize source.length (bytes (taken' ++ planned')) =
      s.signing decisions ++ remaining r₀.blockSize source.length
        (bytes (taken' ++ planned') + bytes (s.signing decisions)) := by
    have hsplit := remaining_split hset.pos source.length (s.gathered decisions).ahead s.offset
    rw [hall, ← h.offset, Sender.signing, h.blockSize, h.size]
    exact hsplit
  obtain ⟨r₂, hrun₂, h₂⟩ := h₁.decideLoop hset hsigning
  obtain ⟨r₃, hrun₃, h₃⟩ := h₂.commit
  refine ⟨_, _, r₁, r₂, r₃, ?_, ?_, hrun₃, h₃, blocked_dropWhile _, ?_, ?_, ?_⟩
  · rw [batch, hblock]
    exact hrun₁
  · rw [batch, hblock]
    exact hrun₂
  · rw [List.append_assoc, List.takeWhile_append_dropWhile, ← List.append_assoc, hall]
  · rw [filter_dropWhile, List.filter_append, hwaiting]
    rfl
  · rw [bytes_append]
    exact hle.trans (Nat.le_add_right _ _)

theorem refused_map (blocks : List (ℕ × ℕ)) (f : ℕ × ℕ → Bool) :
    refused blocks (blocks.map f) = blocks.filter fun block => !f block := by
  induction blocks with
  | nil => rfl
  | cons block blocks ih =>
      rw [refused] at ih ⊢
      cases hf : f block <;> simp [hf, ih]

/-- The decisions of a round belong to what the sender signed in it. -/
theorem Agree.next {decisions : Decisions} (h : Agree sha source r₀ taken planned s r decisions)
    {taken₁ planned₁ : List (ℕ × ℕ)} {r₁ : Receiver} (h₁ : Taken sha source r₀ taken₁ planned₁ r₁)
    (hblocked : Blocked source r₀ planned₁)
    (hall : taken₁ ++ planned₁ = taken ++ planned ++ s.signing decisions)
    (hasked : planned₁.filter (differs source r₀) = (s.stepped sha decisions).requests ++
      (s.signing decisions).filter (differs source r₀)) :
    Agree sha source r₀ taken₁ planned₁ (s.stepped sha decisions) r₁
      (.list ((s.signing decisions).map (same source r₀))) := by
  have hblock : (s.gathered decisions).block = piece source := by
    funext block
    rw [Sender.block, ← h.content]
    rfl
  refine ⟨h.sound.stepped h.fitting, h.content, h.blockSize, h₁, hblocked, ?_, ?_, ?_, ?_⟩
  · rw [hall, bytes_append, ← h.offset]
    rfl
  · rw [hall, List.map_append, List.flatten_append, ← h.chain, ← hblock]
    rfl
  · exact List.length_map ..
  · rw [hasked]
    exact congrArg (fun blocks => (s.stepped sha decisions).requests ++ blocks) (refused_map ..)

theorem bytes_pos {blocks : List (ℕ × ℕ)} (h : ∀ block ∈ blocks, 0 < block.2) (hne : blocks ≠ []) :
    0 < bytes blocks := by
  cases blocks with
  | nil => exact absurd rfl hne
  | cons block blocks =>
      have hfirst := h block List.mem_cons_self
      rw [bytes_cons]
      omega

theorem ahead_pos (s : Sender) : 0 < s.ahead := by
  rw [ahead]
  split_ifs
  · decide
  · exact lt_of_lt_of_le Nat.one_pos (le_max_left _ _)

/-- A round that does not end the exchange signs a block or serves one. -/
theorem Agree.progress (hset : Setting sha source r₀) {decisions : Decisions}
    (h : Agree sha source r₀ taken planned s r decisions)
    (hdone : (s.stepped sha decisions).done = false) :
    0 < bytes (s.signing decisions) + bytes (s.serving decisions) := by
  by_contra hnothing
  have hpos : 0 < s.blockSize := h.blockSize ▸ hset.pos
  have hserving : s.serving decisions = [] := by
    by_contra hne
    have hbytes : 0 < bytes (s.serving decisions) := by
      refine bytes_pos (fun block hmem => ?_) hne
      have hasked : block ∈ s.asked decisions := by
        rw [← serve_append false 0 (s.asked decisions)]
        exact List.mem_append_left _ hmem
      obtain ⟨hlt, hlength⟩ := (h.sound.decided h.fitting).blocks block hasked
      have hlt' : block.1 < s.size := hlt
      have hlength' : block.2 = min s.blockSize (s.size - block.1) := hlength
      omega
    omega
  have hasked : s.asked decisions = [] := by
    by_contra hne
    exact serve_ne_nil hne hserving
  have hoffset : s.size ≤ s.offset := by
    by_contra hmore
    have hbytes : 0 < bytes (s.signing decisions) := by
      obtain ⟨limit, hlimit⟩ := Nat.exists_eq_succ_of_ne_zero (ahead_pos (s.gathered decisions)).ne'
      rw [Sender.signing, hlimit, upcoming, if_pos (not_le.mp hmore), bytes_cons]
      omega
    omega
  have hsigning : s.signing decisions = [] := upcoming_of_le hoffset _
  have hrequests : (s.stepped sha decisions).requests = [] := by
    change (serve false 0 (s.asked decisions)).2 = []
    rw [hasked]
    rfl
  have hsent : (s.stepped sha decisions).sent = [] := by
    change [] ++ s.signing decisions = []
    rw [hsigning]
    rfl
  have hend : (s.stepped sha decisions).offset = (s.stepped sha decisions).size := by
    change s.offset + bytes (s.signing decisions) = s.size
    rw [hsigning, bytes_nil]
    exact le_antisymm h.sound.offset hoffset
  rw [Sender.done, hrequests, hsent, hend] at hdone
  simp at hdone

/-- What the two sessions have still to do. -/
def work (source : Bytes) (s : Sender) (taken : List (ℕ × ℕ)) : ℕ :=
  (source.length - s.offset) + (source.length - bytes taken)

/-- The result of a receiver that has taken the whole source. -/
structure Finished (sha : Bytes → Bytes) (source : Bytes) (r₀ r : Receiver) (result : SyncResult) :
    Prop where
  whole : ∃ r₁, Taken sha source r₀ (remaining r₀.blockSize source.length 0) [] r₁ ∧
    result = ⟨r₁.changed, r₁.size, r₁.transferred, r₁.reused⟩ ∧
    r = if r₁.changed then r₁.opened.replace else r₁

theorem Taken.bytes_le (h : Taken sha source r₀ taken planned r) (hset : Setting sha source r₀) :
    bytes (taken ++ planned) ≤ source.length := by
  have hall : bytes (remaining r₀.blockSize source.length 0) = source.length :=
    bytes_upcoming hset.pos (Nat.sub_le _ _)
  rw [h.split, bytes_append] at hall
  omega

/-- One round: the exchange ends with the whole source, or the sessions agree on more. -/
theorem Agree.round (hset : Setting sha source r₀) {decisions : Decisions}
    (h : Agree sha source r₀ taken planned s r decisions) :
    (∃ result r', (Receiver.step sha (.batch (s.batch sha decisions))).run r = .ok (.result result) r' ∧
      Finished sha source r₀ r' result) ∨
    ∃ taken₁ planned₁ answer r', (Receiver.step sha (.batch (s.batch sha decisions))).run r =
        .ok (.decisions answer) r' ∧
      Agree sha source r₀ taken₁ planned₁ (s.stepped sha decisions) r' (.list answer) ∧
      work source (s.stepped sha decisions) taken₁ < work source s taken := by
  obtain ⟨taken₁, planned₁, r₁, r₂, r₃, hrun₁, hrun₂, hrun₃, h₃, hblocked, hall, hasked, hle⟩ :=
    h.received hset
  have hverify : Receiver.verify.run r = .ok .unit r :=
    Receiver.verify_run (h.receiver.holds.check hset.check)
  have hnext := h.next h₃ hblocked hall hasked
  cases hdone : (s.stepped sha decisions).done with
  | false =>
      right
      have hdigest : (s.batch sha decisions).digest = none := by
        rw [batch, hdone]
        rfl
      refine ⟨taken₁, planned₁, _, r₃, ?_, hnext, ?_⟩
      · rw [Receiver.step, run_bind_ok hverify, Receiver.receive, run_bind_ok hrun₁,
          run_bind_ok hrun₂, run_bind_ok hrun₃, hdigest]
        rfl
      · have hprogress := h.progress hset hdone
        have hoffset : (s.stepped sha decisions).offset = s.offset + bytes (s.signing decisions) := rfl
        have hbound := hnext.sound.offset
        have hsize := hnext.size
        have hbytes := h₃.bytes_le hset
        rw [bytes_append] at hbytes
        rw [work, work, hoffset]
        omega
  | true =>
      left
      have hdone' := hdone
      rw [Sender.done, Bool.and_eq_true, Bool.and_eq_true, beq_iff_eq, List.isEmpty_iff,
        List.isEmpty_iff] at hdone
      obtain ⟨⟨hoffset, hrequests⟩, hsent⟩ := hdone
      have hsigning : s.signing decisions = [] := hsent
      rw [hrequests, hsigning] at hasked
      obtain rfl := hblocked.eq_nil hasked
      have hwhole : bytes (taken₁ ++ []) = source.length := by
        rw [← hnext.offset, hoffset, hnext.size]
      have hsplit := h₃.split
      rw [hwhole, remaining, remaining, upcoming_of_le le_rfl, List.append_nil, List.append_nil,
        ← remaining] at hsplit
      have hend : r₃.offset = r₃.size := by
        have hdecided := h₃.decided
        rw [h₃.holds.decided, h₃.plan, hwhole] at hdecided
        rw [h₃.holds.size, hset.size, ← hdecided]
        rfl
      have hdigest : (s.batch sha decisions).digest = some (sha r₃.chain) := by
        have hchain := hnext.chain
        rw [List.append_nil] at hchain
        rw [batch, hdone', if_pos rfl, hchain, h₃.holds.chain, List.map_map]
        rfl
      have hfinish := Receiver.finish_ok h₃.holds hset.pos hset.check hend
      refine ⟨_, _, ?_, r₃, hsplit ▸ h₃, rfl, rfl⟩
      rw [Receiver.step, run_bind_ok hverify, Receiver.receive, run_bind_ok hrun₁,
        run_bind_ok hrun₂, run_bind_ok hrun₃, hdigest]
      exact run_bind_ok hfinish

/-- The exchange ends with the whole source. -/
theorem Agree.exchange (hset : Setting sha source r₀) {decisions : Decisions} {fuel : ℕ}
    (h : Agree sha source r₀ taken planned s r decisions) (hfuel : work source s taken < fuel) :
    ∃ result s' r', exchange sha fuel s r decisions = some (.ok result, s', r') ∧
      Finished sha source r₀ r' result := by
  induction fuel generalizing s r decisions taken planned with
  | zero => cases hfuel
  | succ fuel ih =>
      have hstep : (Sender.step sha decisions).run s =
          .ok (s.batch sha decisions) (s.stepped sha decisions) :=
        step_run h.sound h.fitting
      rcases h.round hset with ⟨result, r', hrun, hfinished⟩ |
        ⟨taken₁, planned₁, answer, r₁, hrun, h₁, hless⟩
      · refine ⟨result, s.stepped sha decisions, r', ?_, hfinished⟩
        rw [FileSync.exchange, hstep]
        simp only [hrun]
      · obtain ⟨result, s', r', hrest, hfinished⟩ := ih h₁ (by omega)
        refine ⟨result, s', r', ?_, hfinished⟩
        rw [FileSync.exchange, hstep]
        simp only [hrun]
        exact hrest

/-! ## The result -/

/-- The bytes of the blocks of the source that differ from the block of the destination at the
same offset. -/
def differing (blockSize : ℕ) (source dest : Bytes) : ℕ :=
  (((Blocks.place 0 (Blocks.cut blockSize source)).filter fun block =>
    readAt dest block.1 block.2.length != block.2).map fun block => block.2.length).sum

theorem bytes_filter_differs {dest : Bytes}
    (hdest : ∀ offset length, r₀.block offset length = readAt dest offset length) :
    bytes ((remaining r₀.blockSize source.length 0).filter (differs source r₀)) =
      differing r₀.blockSize source dest := by
  have hplace : Blocks.place 0 (Blocks.cut r₀.blockSize source) =
      (remaining r₀.blockSize source.length 0).map fun block => (block.1, piece source block) :=
    (map_upcoming r₀.blockSize source source.length 0).symm
  have hlength : ∀ block ∈ remaining r₀.blockSize source.length 0,
      (piece source block).length = block.2 := by
    intro block hmem
    obtain ⟨before, after, hsplit⟩ := List.append_of_mem hmem
    obtain ⟨-, hlt, hlength⟩ := upcoming_block hsplit
    exact length_piece hlt hlength
  have hfilter : (remaining r₀.blockSize source.length 0).filter (differs source r₀) =
      (remaining r₀.blockSize source.length 0).filter fun block =>
        readAt dest block.1 (piece source block).length != piece source block := by
    refine List.filter_congr fun block hmem => ?_
    rw [hlength block hmem, ← hdest]
    rfl
  rw [differing, hplace, List.filter_map, List.map_map, hfilter]
  refine congrArg List.sum (List.map_congr_left fun block hmem => ?_)
  exact (hlength block (List.mem_of_mem_filter hmem)).symm

theorem bytes_filter_add (source : Bytes) (r₀ : Receiver) (blocks : List (ℕ × ℕ)) :
    bytes (blocks.filter (differs source r₀)) + bytes (blocks.filter (same source r₀)) =
      bytes blocks := by
  induction blocks with
  | nil => rfl
  | cons block blocks ih =>
      cases hsame : same source r₀ block with
      | false =>
          rw [List.filter_cons_of_pos (by simp [differs, hsame]),
            List.filter_cons_of_neg (by simp [hsame]), bytes_cons, bytes_cons]
          omega
      | true =>
          rw [List.filter_cons_of_neg (by simp [differs, hsame]),
            List.filter_cons_of_pos (by simp [hsame]), bytes_cons, bytes_cons]
          omega

/-- The receiver has the bytes of the source, in the copy or in the destination. -/
theorem Taken.flatten (h : Taken sha source r₀ (remaining r₀.blockSize source.length 0) [] r)
    (hset : Setting sha source r₀) :
    ((remaining r₀.blockSize source.length 0).map (piece source)).flatten = source ∧
      r.offset = source.length := by
  have hflatten := flatten_pieces hset.pos source
  exact ⟨hflatten, by rw [h.holds.offset, hflatten]⟩

/-- Nothing was sent exactly when every block is the same. -/
theorem Taken.transferred_eq_zero (h : Taken sha source r₀ taken [] r) (hset : Setting sha source r₀)
    (hzero : r.transferred = 0) : r.output = none := by
  have hnone : taken.any (differs source r₀) = false := by
    by_contra hany
    rw [Bool.not_eq_false, List.any_eq_true] at hany
    obtain ⟨block, hmem, hdiffers⟩ := hany
    have hfilter : block ∈ taken.filter (differs source r₀) := List.mem_filter.mpr ⟨hmem, hdiffers⟩
    have hpos : 0 < bytes (taken.filter (differs source r₀)) := by
      refine bytes_pos (fun block hmem => ?_) (List.ne_nil_of_mem hfilter)
      obtain ⟨before, after, hsplit⟩ := List.append_of_mem (List.mem_of_mem_filter hmem)
      have hall := h.split
      rw [hsplit, List.append_nil, List.append_assoc, List.cons_append] at hall
      obtain ⟨-, hlt, hlength⟩ := upcoming_block hall
      have hblockSize := hset.pos
      omega
    rw [← h.transferred] at hpos
    omega
  have houtput := h.output
  rw [hnone] at houtput
  exact Option.not_isSome_iff_eq_none.mp (by simp [houtput])

/-- A receiver that has taken the whole source reports no change exactly when the destination
already held it. -/
theorem Taken.changed_eq_false (h : Taken sha source r₀ (remaining r₀.blockSize source.length 0) [] r)
    (hset : Setting sha source r₀) :
    r.changed = false ↔ ∃ file, r₀.old = some file ∧ file.content = source := by
  rw [Receiver.changed, h.holds.old, h.holds.size, hset.size]
  cases hold : r₀.old with
  | none => simp
  | some file =>
      simp only [Bool.or_eq_false_iff, bne_eq_false_iff_eq, decide_eq_false_iff_not, not_lt,
        Nat.le_zero, Option.some.injEq, exists_eq_left']
      constructor
      · rintro ⟨hlength, hzero⟩
        obtain ⟨hflatten, hoffset⟩ := h.flatten hset
        have hkept := (h.holds.kept (h.transferred_eq_zero hset hzero)).2
        rw [hflatten, hoffset, ← hlength, Receiver.block, hold] at hkept
        have hread : readAt file.content 0 file.content.length = source := hkept
        rw [← hread, readAt, List.drop_zero, List.take_length]
      · rintro rfl
        refine ⟨rfl, ?_⟩
        have hnone : (remaining r₀.blockSize file.content.length 0).filter
            (differs file.content r₀) = [] := by
          refine List.filter_eq_nil_iff.mpr fun block _ => ?_
          simp [differs, same, Receiver.block, hold, piece]
        rw [h.transferred, hnone, bytes_nil]

/-- The path names a file with the bytes of the source. -/
theorem Finished.content (h : Finished sha source r₀ r result) (hset : Setting sha source r₀)
    (hpath : ∀ file, r₀.old = some file → r₀.path = .regular file) :
    r.path.content = some source := by
  obtain ⟨r₁, htaken, -, rfl⟩ := h.whole
  obtain ⟨hflatten, -⟩ := htaken.flatten hset
  cases hchanged : r₁.changed with
  | true =>
      obtain ⟨file, hfile⟩ := Option.isSome_iff_exists.mp r₁.isSome_opened
      obtain ⟨hcontent, -⟩ := htaken.holds.opened.written file hfile
      rw [hflatten] at hcontent
      rw [if_pos rfl, Receiver.replace, hfile]
      exact congrArg some hcontent
  | false =>
      obtain ⟨file, hold, rfl⟩ := (htaken.changed_eq_false hset).mp hchanged
      rw [if_neg (by simp), htaken.holds.path, hpath file hold]
      rfl

/-- A result without a change comes without a temporary file. -/
theorem Finished.unchanged (h : Finished sha source r₀ r result) (hset : Setting sha source r₀)
    (hunchanged : result.changed = false) :
    r.path = r₀.path ∧ r.output = none ∧ r.temp = false := by
  obtain ⟨r₁, htaken, rfl, rfl⟩ := h.whole
  have hchanged : r₁.changed = false := hunchanged
  have hzero : r₁.transferred = 0 := by
    rw [Receiver.changed] at hchanged
    cases hold : r₁.old with
    | none =>
        rw [hold] at hchanged
        cases hchanged
    | some file =>
        rw [hold] at hchanged
        simp only [Bool.or_eq_false_iff, decide_eq_false_iff_not, not_lt, Nat.le_zero] at hchanged
        exact hchanged.2
  have houtput := htaken.transferred_eq_zero hset hzero
  rw [hchanged, if_neg (by simp)]
  refine ⟨htaken.holds.path, houtput, ?_⟩
  rw [htaken.holds.temp, houtput]
  rfl

theorem checkBlockSize_natCast {blockSize : ℕ} (hpos : 0 < blockSize)
    (hmax : blockSize ≤ maxBlockSize) : checkBlockSize blockSize = .ok blockSize := by
  rw [checkBlockSize, if_pos ⟨by omega, by omega⟩]
  rfl

/-- A receiver whose path names nothing or a regular file can be opened. -/
theorem receiver_new {blockSize : ℕ} {path : Node}
    (hopen : path = .absent ∨ ∃ file, path = .regular file) (hpos : 0 < blockSize)
    (hmax : blockSize ≤ maxBlockSize) (size : ℕ) :
    ∃ old, Receiver.new path blockSize size =
        .ok ⟨path, old, blockSize, size, none, false, 0, [], 0, [], 0, 0⟩ ∧
      old.map File.content = path.content ∧ (∀ file, old = some file → path = .regular file) := by
  have hcheck := checkBlockSize_natCast hpos hmax
  have hsize : ¬ (size : ℤ) < 0 := by omega
  rcases hopen with rfl | ⟨file, rfl⟩
  · refine ⟨none, ?_, rfl, nofun⟩
    rw [Receiver.new, hcheck]
    simp only [if_neg hsize]
    rfl
  · refine ⟨some file, ?_, rfl, ?_⟩
    · rw [Receiver.new, hcheck]
      simp only [if_neg hsize]
      rfl
    · rintro file ⟨⟩
      rfl

theorem sender_new {blockSize : ℕ} (file : File) (hpos : 0 < blockSize)
    (hmax : blockSize ≤ maxBlockSize) :
    Sender.new (.regular file) blockSize =
      .ok ⟨.regular file, file, blockSize, file.content.length, 0, [], [], ∅, false, []⟩ := by
  rw [Sender.new, checkBlockSize_natCast hpos hmax]
  rfl

/-- Every source reaches every destination: the exchange ends without an error, the destination
has the bytes of the source, the result counts the blocks that differ, and it reports no change
exactly when the destination held the source, and then no temporary file was created. -/
theorem exchange_converges (sha : Bytes → Bytes) (inode : ℕ) (source : Bytes) (path : Node)
    (hopen : path = .absent ∨ ∃ file, path = .regular file) (blockSize : ℕ)
    (hpos : 1 ≤ blockSize) (hmax : blockSize ≤ maxBlockSize)
    (hsha : ∀ offset length,
      sha (readAt (path.content.getD []) offset length) = sha (readAt source offset length) →
        readAt (path.content.getD []) offset length = readAt source offset length) :
    ∃ s₀ r₀ fuel result s r,
      Sender.new (.regular ⟨inode, source⟩) blockSize = .ok s₀ ∧
      Receiver.new path blockSize source.length = .ok r₀ ∧
      exchange sha fuel s₀ r₀ .none = some (.ok result, s, r) ∧
      r.path.content = some source ∧
      result.size = source.length ∧ result.transferred + result.reused = result.size ∧
      result.transferred = differing blockSize source (path.content.getD []) ∧
      (result.changed = false ↔ path.content = some source) ∧
      (result.changed = false → r.path = path ∧ r.output = none ∧ r.temp = false) := by
  obtain ⟨old, hnew, hcontent, hold⟩ := receiver_new hopen hpos hmax source.length
  obtain ⟨r₀, hr₀⟩ : ∃ r₀ : Receiver,
      r₀ = ⟨path, old, blockSize, source.length, none, false, 0, [], 0, [], 0, 0⟩ := ⟨_, rfl⟩
  have hsender := sender_new ⟨inode, source⟩ hpos hmax
  have hblock : ∀ offset length, r₀.block offset length =
      readAt (path.content.getD []) offset length := by
    intro offset length
    rw [hr₀, ← hcontent]
    cases old with
    | none => simp [Receiver.block, readAt]
    | some file => rfl
  rw [← hr₀] at hnew
  obtain ⟨-, -, -, -, hcheck, blocks, hholds, hblocks⟩ := Receiver.new_inv sha hnew
  obtain rfl : blocks = [] := by simpa [hr₀] using hblocks
  have hset : Setting sha source r₀ := by
    refine ⟨?_, ?_, hcheck, fun block heq => ?_⟩
    · rw [hr₀]
      exact hpos
    · rw [hr₀]
    · rw [hblock] at heq ⊢
      exact hsha block.1 block.2 heq
  have hagree : Agree sha source r₀ [] []
      ⟨.regular ⟨inode, source⟩, ⟨inode, source⟩, blockSize, source.length, 0, [], [], ∅, false, []⟩
      r₀ .none := by
    obtain ⟨hbounded, -⟩ := new_bounded hsender
    have hblocked : Blocked source r₀ [] := by
      intro block planned hplan
      cases hplan
    refine ⟨hbounded.toSound, rfl, by rw [hr₀], ⟨hholds, rfl, ?_, ?_, ?_, ?_⟩, hblocked, rfl, rfl,
      rfl, rfl⟩ <;> rw [hr₀] <;> rfl
  obtain ⟨result, s, r, hexchange, hfinished⟩ := hagree.exchange hset (Nat.lt_succ_self _)
  refine ⟨_, r₀, _, result, s, r, hsender, hnew, hexchange, ?_, ?_⟩
  · refine hfinished.content hset fun file hfile => ?_
    rw [hr₀] at hfile ⊢
    exact hold file hfile
  · have hunchanged := hfinished.unchanged hset
    obtain ⟨r₁, htaken, rfl, -⟩ := hfinished.whole
    have htransferred : r₁.transferred = differing blockSize source (path.content.getD []) := by
      rw [htaken.transferred, bytes_filter_differs hblock, hr₀]
    have hsize : r₁.size = source.length := by rw [htaken.holds.size, hset.size]
    refine ⟨hsize, ?_, htransferred, ?_, ?_⟩
    · have hall : bytes (remaining r₀.blockSize source.length 0) = source.length :=
        bytes_upcoming hset.pos (Nat.sub_le _ _)
      simp only [htaken.transferred, htaken.reused, List.append_nil, bytes_filter_add, hall, hsize]
    · rw [htaken.changed_eq_false hset, ← hcontent, hr₀]
      simp
    · intro hfalse
      rw [hr₀] at hunchanged
      exact hunchanged hfalse

theorem oneByte_converges :
    ∃ s₀ r₀ fuel result s r,
      Sender.new (.regular ⟨1, [97]⟩) 4096 = .ok s₀ ∧ Receiver.new .absent 4096 1 = .ok r₀ ∧
      exchange Receiver.sampleSha fuel s₀ r₀ .none = some (.ok result, s, r) ∧
      r.path.content = some [97] ∧ result.transferred = 1 := by
  have hsha : ∀ offset length,
      Receiver.sampleSha (readAt [] offset length) = Receiver.sampleSha (readAt [97] offset length) →
        readAt [] offset length = readAt [97] offset length := by
    intro offset length
    cases offset with
    | zero =>
        cases length with
        | zero => exact fun _ => rfl
        | succ length =>
            intro h
            exact absurd h (by simp [readAt]; decide)
    | succ offset => simp [readAt]
  obtain ⟨s₀, r₀, fuel, result, s, r, hs, hr, hexchange, hcontent, -, -, htransferred, -⟩ :=
    exchange_converges Receiver.sampleSha 1 [97] .absent (.inl rfl) 4096 (by decide) (by decide) hsha
  exact ⟨s₀, r₀, fuel, result, s, r, hs, hr, hexchange, hcontent, htransferred⟩

end FileSync

end Rmote
