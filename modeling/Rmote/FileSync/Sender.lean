import Mathlib.Algebra.Order.BigOperators.Group.List
import Rmote.FileSync.Receiver
import Rmote.Library.Dict
import Rmote.Library.Machine

/-!
# The memory of a sender

A sender that signs in small batches keeps the blocks that it signed, until the receiver
says that they match or asks for them. Requests are served in order, so a kept block waits
behind the requests before it. While the requests of one message are served by the next
one, nothing waits, and what is kept fits into the window. A receiver that refuses a batch
that was signed far ahead leaves requests behind, and then every message adds blocks to
those that wait.
-/

namespace Rmote

namespace FileSync

namespace Sender

open Hoare

/-- The requests that one message serves, and those that wait; `begun` tells whether the
message has a block. -/
def serve : Bool → ℕ → List (ℕ × ℕ) → List (ℕ × ℕ) × List (ℕ × ℕ)
  | _, _, [] => ([], [])
  | begun, total, block :: requests =>
      if begun = true ∧ window < total + block.2 then
        ([], block :: requests)
      else
        (block :: (serve true (total + block.2) requests).1,
          (serve true (total + block.2) requests).2)

/-- The kept blocks without some of them. -/
def forget (cache : AList fun _ : ℕ => Bytes) (blocks : List (ℕ × ℕ)) : AList fun _ : ℕ => Bytes :=
  blocks.foldl (fun cache block => cache.erase block.1) cache

/-- The bytes that the sender keeps. -/
def kept (s : Sender) : ℕ := Dict.weight List.length s.cache

/-- The bytes of some blocks. -/
def bytes (blocks : List (ℕ × ℕ)) : ℕ := (blocks.map Prod.snd).sum

@[simp] theorem bytes_nil : bytes [] = 0 := rfl

@[simp] theorem bytes_cons (block : ℕ × ℕ) (blocks : List (ℕ × ℕ)) :
    bytes (block :: blocks) = block.2 + bytes blocks := rfl

variable {sha : Bytes → Bytes} {s s' : Sender} {begun : Bool} {total : ℕ}
  {requests blocks : List (ℕ × ℕ)} {cache : AList fun _ : ℕ => Bytes} {offset : ℕ}

theorem serve_cons (begun : Bool) (total : ℕ) (block : ℕ × ℕ) (requests : List (ℕ × ℕ)) :
    serve begun total (block :: requests) =
      if begun = true ∧ window < total + block.2 then
        ([], block :: requests)
      else
        (block :: (serve true (total + block.2) requests).1,
          (serve true (total + block.2) requests).2) := rfl

@[simp] theorem forget_nil (cache : AList fun _ : ℕ => Bytes) : forget cache [] = cache := rfl

theorem forget_cons (cache : AList fun _ : ℕ => Bytes) (block : ℕ × ℕ) (blocks : List (ℕ × ℕ)) :
    forget cache (block :: blocks) = forget (cache.erase block.1) blocks := rfl

theorem serve_append (begun : Bool) (total : ℕ) (requests : List (ℕ × ℕ)) :
    (serve begun total requests).1 ++ (serve begun total requests).2 = requests := by
  induction requests generalizing begun total with
  | nil => rfl
  | cons block requests ih =>
      rw [serve_cons]
      split_ifs
      · rfl
      · simp [ih]

/-- A message that is begun stays within the window. -/
theorem bytes_serve_true (total : ℕ) (requests : List (ℕ × ℕ)) :
    total + bytes (serve true total requests).1 ≤ max total window := by
  induction requests generalizing total with
  | nil => exact le_max_left total window
  | cons block requests ih =>
      rw [serve_cons]
      split_ifs with hfull
      · exact le_max_left total window
      · have hle := ih (total + block.2)
        have hroom : total + block.2 ≤ window := by simpa using hfull
        rw [max_eq_right hroom] at hle
        rw [bytes_cons]
        exact le_max_of_le_right (by omega)

/-- A message is within the window, or it is one block. -/
theorem bytes_serve_le {n : ℕ} (h : ∀ block ∈ requests, block.2 ≤ n) :
    bytes (serve false 0 requests).1 ≤ max window n := by
  cases requests with
  | nil => exact Nat.zero_le _
  | cons block requests =>
      have hle := bytes_serve_true (0 + block.2) requests
      have hblock := h block List.mem_cons_self
      rw [serve_cons, if_neg (by simp), bytes_cons]
      omega

/-- The first request is always served. -/
theorem serve_ne_nil (h : requests ≠ []) : (serve false 0 requests).1 ≠ [] := by
  cases requests with
  | nil => exact absurd rfl h
  | cons block requests => simp [serve_cons]

/-- A request waits only behind a full message. -/
theorem lt_bytes_of_mem_serve {block : ℕ × ℕ} (h : block ∈ (serve begun total requests).2) :
    ∃ before after, requests = before ++ block :: after ∧
      (begun = false → before ≠ []) ∧ window < total + bytes before + block.2 := by
  induction requests generalizing begun total with
  | nil => cases h
  | cons first requests ih =>
      rw [serve_cons] at h
      split_ifs at h with hfull
      · obtain ⟨before, after, hsplit⟩ := List.append_of_mem h
        have hsplit' : first :: requests = before ++ block :: after := hsplit
        refine ⟨before, after, hsplit', fun hfalse => ?_, ?_⟩
        · rw [hfull.1] at hfalse
          cases hfalse
        · cases before with
          | nil =>
              cases hsplit'
              simpa using hfull.2
          | cons first' before =>
              cases hsplit'
              rw [bytes_cons]
              have hfull := hfull.2
              omega
      · obtain ⟨before, after, rfl, -, hlt⟩ := ih h
        refine ⟨first :: before, after, rfl, fun _ => List.cons_ne_nil _ _, ?_⟩
        rw [bytes_cons]
        omega

theorem mem_forget : offset ∈ forget cache blocks ↔ offset ∈ cache ∧ offset ∉ blocks.map Prod.fst := by
  induction blocks generalizing cache with
  | nil => simp
  | cons block blocks ih =>
      rw [forget_cons, ih, AList.mem_erase, List.map_cons, List.mem_cons,
        not_or]
      tauto

theorem lookup_forget {data : Bytes} (h : (forget cache blocks).lookup offset = some data) :
    cache.lookup offset = some data := by
  induction blocks generalizing cache with
  | nil => exact h
  | cons block blocks ih =>
      have hrest := ih h
      by_cases heq : offset = block.1
      · rw [heq, AList.lookup_erase] at hrest
        cases hrest
      · rwa [AList.lookup_erase_ne heq] at hrest

theorem weight_forget_le (cache : AList fun _ : ℕ => Bytes) (blocks : List (ℕ × ℕ)) :
    Dict.weight List.length (forget cache blocks) ≤ Dict.weight List.length cache := by
  induction blocks generalizing cache with
  | nil => exact le_rfl
  | cons block blocks ih =>
      have hrest := ih (cache.erase block.1)
      have herase := Dict.weight_erase List.length cache block.1
      rw [forget_cons]
      omega

/-! ## What the sender has signed -/

/-- The blocks that the sender speaks of are blocks of its file, and what it keeps is their
content. -/
structure Sound (s : Sender) : Prop where
  path : s.path = .regular s.old
  size : s.size = s.old.content.length
  pos : 0 < s.blockSize
  offset : s.offset ≤ s.size
  blocks : ∀ block ∈ s.sent ++ s.requests, block.1 < s.size ∧
    block.2 = min s.blockSize (s.size - block.1)
  cached : ∀ offset data, s.cache.lookup offset = some data →
    data = readAt s.old.content offset (min s.blockSize (s.size - offset))
  keys : ∀ offset ∈ s.cache, offset ∈ (s.sent ++ s.requests).map Prod.fst

theorem read_run {length : ℕ} (h : offset + length ≤ s.old.content.length) :
    (read offset length).run s = .ok (readAt s.old.content offset length) s := by
  have hlength : (readAt s.old.content offset length).length = length := by
    rw [length_readAt]
    omega
  simp [read, hlength]

/-- The content of a block. -/
def block (s : Sender) (block : ℕ × ℕ) : Bytes := readAt s.old.content block.1 block.2

theorem Sound.length_block (h : s.Sound) {block : ℕ × ℕ} (hmem : block ∈ s.sent ++ s.requests) :
    (s.block block).length = block.2 := by
  obtain ⟨hlt, hlength⟩ := h.blocks block hmem
  rw [Sender.block, length_readAt, ← h.size]
  omega

/-- The requests that a message serves leave the queue and the cache. -/
def served (s : Sender) (blocks requests : List (ℕ × ℕ)) : Sender :=
  { s with requests := requests, cache := forget s.cache blocks }

theorem Sound.served (h : s.Sound) (hrequests : s.requests = blocks ++ requests) :
    (s.served blocks requests).Sound := by
  refine ⟨h.path, h.size, h.pos, h.offset, fun block hmem => h.blocks block ?_,
    fun offset data hdata => h.cached offset data (lookup_forget hdata), fun offset hmem => ?_⟩
  · rw [hrequests]
    rcases List.mem_append.mp hmem with hmem | hmem
    · exact List.mem_append_left _ hmem
    · exact List.mem_append_right _ (List.mem_append_right _ hmem)
  · obtain ⟨hcached, hnot⟩ := mem_forget.mp hmem
    have hkey := h.keys offset hcached
    rw [hrequests, List.map_append, List.map_append, List.mem_append, List.mem_append] at hkey
    rw [Sender.served, List.map_append, List.mem_append]
    rcases hkey with hsent | hserved | hwaits
    · exact .inl hsent
    · exact absurd hserved hnot
    · exact .inr hwaits

/-- A block that is not kept is read again. -/
theorem Sound.fetch (h : s.Sound) {length : ℕ} (hmem : (offset, length) ∈ s.sent ++ s.requests)
    (s' : Sender) (hold : s'.old = s.old) :
    (fetch offset length (s.cache.lookup offset)).run s' = .ok (s.block (offset, length)) s' := by
  obtain ⟨hlt, hlength⟩ := h.blocks _ hmem
  cases hdata : s.cache.lookup offset with
  | some data =>
      rw [h.cached offset data hdata, ← hlength]
      rfl
  | none =>
      have hread : (read offset length).run s' = .ok (readAt s'.old.content offset length) s' := by
        refine read_run ?_
        rw [hold, ← h.size]
        simp only at hlt hlength
        omega
      rw [hold] at hread
      exact hread

theorem contentLoop_run (h : s.Sound) {gathered : List Bytes} (hrequests : s.requests = requests) :
    (contentLoop requests gathered total).run s =
      .ok (gathered ++ (serve (!gathered.isEmpty) total requests).1.map s.block)
        (s.served (serve (!gathered.isEmpty) total requests).1
          (serve (!gathered.isEmpty) total requests).2) := by
  induction requests generalizing s gathered total with
  | nil =>
      cases s
      cases hrequests
      simp [contentLoop, serve, Sender.served]
  | cons first requests ih =>
      obtain ⟨offset, length⟩ := first
      rw [contentLoop, serve_cons]
      by_cases hfull : gathered.isEmpty = false ∧ window < total + length
      · rw [if_pos hfull, if_pos (by simpa using hfull)]
        cases s
        cases hrequests
        simp [Sender.served]
      · have hmem : (offset, length) ∈ s.sent ++ s.requests := by
          rw [hrequests]
          exact List.mem_append_right _ List.mem_cons_self
        have hfetch := h.fetch hmem (s.served [(offset, length)] requests) rfl
        have hserved : (s.served [(offset, length)] requests).Sound :=
          h.served (by simpa using hrequests)
        have hnext := @ih _ (total + length) hserved (gathered ++ [s.block (offset, length)]) rfl
        have hbegun : (!(gathered ++ [s.block (offset, length)]).isEmpty) = true := by simp
        rw [hbegun] at hnext
        rw [if_neg hfull, if_neg (by simpa using hfull)]
        refine (run_bind_ok (f := fun data => contentLoop requests (gathered ++ [data])
          (total + length)) hfetch).trans (hnext.trans ?_)
        simp [Sender.served, forget_cons, Sender.block]

/-! ## The decisions -/

/-- The blocks that the receiver holds. -/
def matched (blocks : List (ℕ × ℕ)) (decisions : List Bool) : List (ℕ × ℕ) :=
  ((blocks.zip decisions).filter Prod.snd).map Prod.fst

/-- The blocks that the receiver asks for. -/
def refused (blocks : List (ℕ × ℕ)) (decisions : List Bool) : List (ℕ × ℕ) :=
  ((blocks.zip decisions).filter fun block => !block.2).map Prod.fst

theorem answers_eq (s : Sender) (blocks : List (ℕ × ℕ)) (decisions : List Bool) :
    s.answers blocks decisions =
      { s with
        cache := forget s.cache (matched blocks decisions)
        requests := s.requests ++ refused blocks decisions } := by
  induction blocks generalizing s decisions with
  | nil => simp [answers, matched, refused]
  | cons block blocks ih =>
      cases decisions with
      | nil => simp [answers, matched, refused]
      | cons decision decisions =>
          have hnext : s.answers (block :: blocks) (decision :: decisions) =
              (s.answer block decision).answers blocks decisions := rfl
          rw [hnext, ih]
          cases decision <;> simp [answer, matched, refused, forget_cons]

theorem mem_of_mem_refused {decisions : List Bool} {block : ℕ × ℕ}
    (h : block ∈ refused blocks decisions) : block ∈ blocks := by
  obtain ⟨⟨block', decision⟩, hmem, rfl⟩ := List.mem_map.mp h
  exact (List.of_mem_zip (List.mem_of_mem_filter hmem)).1

theorem mem_matched_or_refused {decisions : List Bool} (hlength : decisions.length = blocks.length)
    {block : ℕ × ℕ} (h : block ∈ blocks) :
    block ∈ matched blocks decisions ∨ block ∈ refused blocks decisions := by
  induction blocks generalizing decisions with
  | nil => cases h
  | cons first blocks ih =>
      cases decisions with
      | nil => cases hlength
      | cons decision decisions =>
          have hrest := @ih decisions (Nat.succ.inj hlength)
          rcases List.mem_cons.mp h with rfl | h
          · cases decision
            · exact .inr (by simp [refused])
            · exact .inl (by simp [matched])
          · refine (hrest h).imp (fun hmem => ?_) fun hmem => ?_
            · cases decision
              · exact hmem
              · exact List.mem_cons_of_mem _ hmem
            · cases decision
              · exact List.mem_cons_of_mem _ hmem
              · exact hmem

/-- The receiver answered what the sender signed. -/
def Fitting (s : Sender) : Decisions → Prop
  | .none => s.sent = []
  | .list decisions => decisions.length = s.sent.length
  | .other => False

instance (s : Sender) : DecidablePred s.Fitting
  | .none => inferInstanceAs (Decidable (s.sent = []))
  | .list decisions => inferInstanceAs (Decidable (decisions.length = s.sent.length))
  | .other => inferInstanceAs (Decidable False)

/-- The requests once the decisions are taken. -/
def asked (s : Sender) : Decisions → List (ℕ × ℕ)
  | .list decisions => s.requests ++ refused s.sent decisions
  | _ => s.requests

/-- The next signatures run far ahead. -/
def alike (s : Sender) : Decisions → Bool
  | .list decisions => if decisions.isEmpty then s.matching else decisions.all id
  | _ => s.matching

/-- The blocks that are matched by the decisions. -/
def dropped (s : Sender) : Decisions → List (ℕ × ℕ)
  | .list decisions => matched s.sent decisions
  | _ => []

/-- The session once the decisions are taken. -/
def decided (s : Sender) (decisions : Decisions) : Sender :=
  { s with
    cache := forget s.cache (s.dropped decisions)
    requests := s.asked decisions
    matching := s.alike decisions
    sent := [] }

theorem decide_run {decisions : Decisions} (h : s.Fitting decisions) :
    (decide decisions).run s = .ok .unit (s.decided decisions) := by
  cases decisions with
  | none =>
      have hsent : s.sent = [] := h
      have hsame : s.decided .none = s := by
        cases s
        cases hsent
        rfl
      simp [decide, hsent, hsame]
  | list decisions =>
      have hlength : decisions.length = s.sent.length := h
      simp [decide, hlength, answers_eq, decided, asked, alike, dropped]
  | other => cases h

theorem decide_error {decisions : Decisions} (h : ¬ s.Fitting decisions) :
    ∃ error, (decide decisions).run s = .error error s := by
  cases decisions with
  | none =>
      have hsent : s.sent ≠ [] := h
      exact ⟨.missingDecisions, by simp [decide, hsent]⟩
  | list decisions =>
      have hlength : ¬ decisions.length = s.sent.length := h
      exact ⟨.unexpectedDecisions, by simp [decide, hlength]⟩
  | other => exact ⟨.unexpectedDecisions, rfl⟩

theorem Sound.decided (h : s.Sound) {decisions : Decisions} (hfit : s.Fitting decisions) :
    (s.decided decisions).Sound := by
  have hsplit : ∀ block ∈ s.sent, block ∈ s.dropped decisions ∨ block ∈ s.asked decisions := by
    intro block hmem
    cases decisions with
    | none =>
        have hsent : s.sent = [] := hfit
        rw [hsent] at hmem
        cases hmem
    | list decisions =>
        exact (mem_matched_or_refused hfit hmem).imp id fun hmem => List.mem_append_right _ hmem
    | other => cases hfit
  have hasked : ∀ block ∈ s.asked decisions, block ∈ s.sent ++ s.requests := by
    intro block hmem
    cases decisions with
    | none => exact List.mem_append_right _ hmem
    | list decisions =>
        rcases List.mem_append.mp hmem with hmem | hmem
        · exact List.mem_append_right _ hmem
        · exact List.mem_append_left _ (mem_of_mem_refused hmem)
    | other => cases hfit
  have hrequests : ∀ block ∈ s.requests, block ∈ s.asked decisions := by
    intro block hmem
    cases decisions with
    | none => exact hmem
    | list decisions => exact List.mem_append_left _ hmem
    | other => cases hfit
  refine ⟨h.path, h.size, h.pos, h.offset, fun block hmem => h.blocks block (hasked block hmem),
    fun offset data hdata => h.cached offset data (lookup_forget hdata), fun offset hmem => ?_⟩
  obtain ⟨hcached, hnot⟩ := mem_forget.mp hmem
  obtain ⟨block, hblock, rfl⟩ := List.mem_map.mp (h.keys offset hcached)
  refine List.mem_map_of_mem ?_
  rcases List.mem_append.mp hblock with hblock | hblock
  · exact (hsplit block hblock).resolve_left fun hmem => hnot (List.mem_map_of_mem hmem)
  · exact hrequests block hblock

/-! ## The signatures -/

/-- The next blocks of a file, at most `limit` of them. -/
def upcoming (blockSize size : ℕ) : ℕ → ℕ → List (ℕ × ℕ)
  | 0, _ => []
  | limit + 1, offset =>
      if offset < size then
        (offset, min blockSize (size - offset)) ::
          upcoming blockSize size limit (offset + min blockSize (size - offset))
      else
        []

/-- Some blocks of the file are kept. -/
def remember (s : Sender) (blocks : List (ℕ × ℕ)) : AList fun _ : ℕ => Bytes :=
  blocks.foldl (fun cache block => cache.insert block.1 (s.block block)) s.cache

/-- The session after some blocks were signed. -/
def signed (sha : Bytes → Bytes) (keep : Bool) (s : Sender) (blocks : List (ℕ × ℕ)) : Sender :=
  { s with
    cache := if keep then s.remember blocks else s.cache
    chain := s.chain ++ (blocks.map fun block => sha (s.block block)).flatten
    sent := s.sent ++ blocks
    offset := s.offset + bytes blocks }

theorem upcoming_succ (blockSize size limit offset : ℕ) :
    upcoming blockSize size (limit + 1) offset =
      if offset < size then
        (offset, min blockSize (size - offset)) ::
          upcoming blockSize size limit (offset + min blockSize (size - offset))
      else
        [] := rfl

theorem bytes_upcoming_le_mul (blockSize size limit offset : ℕ) :
    bytes (upcoming blockSize size limit offset) ≤ limit * blockSize := by
  induction limit generalizing offset with
  | zero => exact Nat.zero_le _
  | succ limit ih =>
      rw [upcoming_succ]
      split_ifs
      · have hrest := ih (offset + min blockSize (size - offset))
        have hfirst : min blockSize (size - offset) ≤ blockSize := min_le_left _ _
        rw [bytes_cons, Nat.succ_mul]
        omega
      · exact Nat.zero_le _

theorem bytes_upcoming_le_sub (blockSize size limit offset : ℕ) :
    bytes (upcoming blockSize size limit offset) ≤ size - offset := by
  induction limit generalizing offset with
  | zero => exact Nat.zero_le _
  | succ limit ih =>
      rw [upcoming_succ]
      split_ifs
      · have hrest := ih (offset + min blockSize (size - offset))
        rw [bytes_cons]
        omega
      · exact Nat.zero_le _

@[simp] theorem signed_nil (keep : Bool) (s : Sender) : signed sha keep s [] = s := by
  cases keep <;> simp [signed, remember]

theorem signed_cons (keep : Bool) (s : Sender) (length : ℕ) (blocks : List (ℕ × ℕ)) :
    signed sha keep s ((s.offset, length) :: blocks) =
      signed sha keep (s.sign sha keep length (s.block (s.offset, length))) blocks := by
  cases keep <;> simp [signed, sign, remember, block, Nat.add_assoc]

theorem signLoop_run (keep : Bool) (limit : ℕ) (h : s.size = s.old.content.length) :
    (signLoop sha keep limit).run s =
      .ok ((upcoming s.blockSize s.size limit s.offset).map fun block =>
          ((block.2 : ℤ), sha (s.block block)))
        (signed sha keep s (upcoming s.blockSize s.size limit s.offset)) := by
  induction limit generalizing s with
  | zero => simp [signLoop, upcoming]
  | succ limit ih =>
      rw [signLoop, upcoming_succ]
      by_cases hmore : s.offset < s.size
      · have hread : (read s.offset (min s.blockSize (s.size - s.offset))).run s =
            .ok (s.block (s.offset, min s.blockSize (s.size - s.offset))) s :=
          read_run (by omega)
        have hnext := @ih (s.sign sha keep (min s.blockSize (s.size - s.offset))
          (s.block (s.offset, min s.blockSize (s.size - s.offset)))) h
        rw [if_pos hmore, signed_cons]
        simp only [EStateM.run_bind, EStateM.run_get, if_pos hmore, hread, EStateM.run_modify,
          hnext]
        rfl
      · simp only [EStateM.run_bind, EStateM.run_get, if_neg hmore]
        simp

theorem kept_remember_le (h : ∀ block ∈ blocks, (s.block block).length ≤ block.2) :
    Dict.weight List.length (s.remember blocks) ≤ s.kept + bytes blocks := by
  suffices hfold : ∀ cache : AList fun _ : ℕ => Bytes,
      Dict.weight List.length
        (blocks.foldl (fun cache block => cache.insert block.1 (s.block block)) cache) ≤
        Dict.weight List.length cache + bytes blocks from hfold s.cache
  induction blocks with
  | nil => exact fun cache => le_rfl
  | cons block blocks ih =>
      intro cache
      have hfirst := h block List.mem_cons_self
      have hrest := ih (fun block hmem => h block (List.mem_cons_of_mem _ hmem))
        (cache.insert block.1 (s.block block))
      have hinsert := Dict.weight_insert List.length cache block.1 (s.block block)
      rw [List.foldl_cons, bytes_cons]
      omega

theorem length_block_le (s : Sender) (block : ℕ × ℕ) : (s.block block).length ≤ block.2 := by
  rw [Sender.block, length_readAt]
  exact min_le_left _ _

theorem kept_signed_le (keep : Bool) (s : Sender) (blocks : List (ℕ × ℕ)) :
    (signed sha keep s blocks).kept ≤ s.kept + bytes blocks := by
  cases keep with
  | false => exact Nat.le_add_right _ _
  | true => exact kept_remember_le fun block _ => s.length_block_le block

theorem Sound.sign (h : s.Sound) (keep : Bool) (hmore : s.offset < s.size) :
    (s.sign sha keep (min s.blockSize (s.size - s.offset))
      (s.block (s.offset, min s.blockSize (s.size - s.offset)))).Sound := by
  refine ⟨h.path, h.size, h.pos, ?_, fun block hmem => ?_, fun offset data hdata => ?_,
    fun offset hmem => ?_⟩
  · simp only [Sender.sign]
    omega
  · simp only [Sender.sign, List.append_assoc, List.mem_append, List.mem_singleton] at hmem
    rcases hmem with hmem | rfl | hmem
    · exact h.blocks block (List.mem_append_left _ hmem)
    · exact ⟨hmore, rfl⟩
    · exact h.blocks block (List.mem_append_right _ hmem)
  · cases keep with
    | false => exact h.cached offset data hdata
    | true =>
        simp only [Sender.sign, if_true] at hdata
        by_cases heq : offset = s.offset
        · rw [heq, AList.lookup_insert] at hdata
          cases hdata
          rw [heq]
          rfl
        · rw [AList.lookup_insert_ne heq] at hdata
          exact h.cached offset data hdata
  · have hcases : offset = s.offset ∨ offset ∈ s.cache := by
      cases keep with
      | false => exact .inr hmem
      | true => exact AList.mem_insert _ |>.mp hmem
    simp only [Sender.sign, List.append_assoc, List.map_append, List.mem_append, List.map_cons,
      List.mem_cons]
    rcases hcases with rfl | hcached
    · exact .inr (.inl (.inl rfl))
    · have hkey := h.keys offset hcached
      rw [List.map_append, List.mem_append] at hkey
      tauto

theorem Sound.signed (h : s.Sound) (keep : Bool) (limit : ℕ) :
    (signed sha keep s (upcoming s.blockSize s.size limit s.offset)).Sound := by
  induction limit generalizing s with
  | zero =>
      rw [show upcoming s.blockSize s.size 0 s.offset = [] from rfl, signed_nil]
      exact h
  | succ limit ih =>
      rw [upcoming_succ]
      split_ifs with hmore
      · rw [signed_cons]
        exact ih (h.sign keep hmore)
      · rw [signed_nil]
        exact h

/-! ## One step -/

/-- The requests that a step serves. -/
def serving (s : Sender) (decisions : Decisions) : List (ℕ × ℕ) := (serve false 0 (s.asked decisions)).1

/-- The session once a step has gathered its content. -/
def gathered (s : Sender) (decisions : Decisions) : Sender :=
  (s.decided decisions).served (s.serving decisions) (serve false 0 (s.asked decisions)).2

/-- The blocks that a step signs. -/
def signing (s : Sender) (decisions : Decisions) : List (ℕ × ℕ) :=
  upcoming s.blockSize s.size (s.gathered decisions).ahead s.offset

/-- The session after a step. -/
def stepped (sha : Bytes → Bytes) (s : Sender) (decisions : Decisions) : Sender :=
  signed sha (!s.alike decisions) (s.gathered decisions) (s.signing decisions)

/-- The message of a step. -/
def batch (sha : Bytes → Bytes) (s : Sender) (decisions : Decisions) : Batch where
  signatures := (s.signing decisions).map fun block => ((block.2 : ℤ), sha (s.block block))
  blocks := (s.serving decisions).map s.block
  digest := if (s.stepped sha decisions).done then some (sha (s.stepped sha decisions).chain) else none

theorem Sound.check (h : s.Sound) : FileSync.check (some s.old) s.path = .ok () := by
  simp [h.path, FileSync.check]

theorem Sound.gathered (h : s.Sound) {decisions : Decisions} (hfit : s.Fitting decisions) :
    (s.gathered decisions).Sound :=
  (h.decided hfit).served (serve_append ..).symm

theorem Sound.stepped (h : s.Sound) {decisions : Decisions} (hfit : s.Fitting decisions) :
    (s.stepped sha decisions).Sound :=
  (h.gathered hfit).signed _ _

theorem step_run (h : s.Sound) {decisions : Decisions} (hfit : s.Fitting decisions) :
    (step sha decisions).run s = .ok (s.batch sha decisions) (s.stepped sha decisions) := by
  have hcontent : content.run (s.decided decisions) =
      .ok ((s.serving decisions).map s.block) (s.gathered decisions) :=
    contentLoop_run (h.decided hfit) rfl
  have hsign : (signatures sha).run (s.gathered decisions) =
      .ok ((s.signing decisions).map fun block => ((block.2 : ℤ), sha (s.block block)))
        (s.stepped sha decisions) :=
    signLoop_run _ _ h.size
  have hsend : (send sha decisions).run s = .ok (s.batch sha decisions) (s.stepped sha decisions) := by
    rw [send, run_bind_ok (decide_run hfit), run_bind_ok hcontent, run_bind_ok hsign]
    rfl
  simp only [step, EStateM.run_bind, EStateM.run_get, h.check, hsend]

theorem step_error (sha : Bytes → Bytes) (h : s.Sound) {decisions : Decisions} (hfit : ¬ s.Fitting decisions) :
    ∃ error, (step sha decisions).run s = .error error s := by
  obtain ⟨error, herror⟩ := decide_error hfit
  refine ⟨error, ?_⟩
  have hsend : (send sha decisions).run s = .error error s := run_bind_error herror
  simp only [step, EStateM.run_bind, EStateM.run_get, h.check, hsend]

/-- A message carries no more than the window, or one block. -/
theorem Sound.bytes_batch_le (sha : Bytes → Bytes) (h : s.Sound) {decisions : Decisions}
    (hfit : s.Fitting decisions) :
    ((s.batch sha decisions).blocks.map List.length).sum ≤ max window s.blockSize := by
  have hblocks : ∀ block ∈ s.asked decisions, block.2 ≤ s.blockSize := by
    intro block hmem
    obtain ⟨-, hlength⟩ := (h.decided hfit).blocks block hmem
    have hlength' : block.2 = min s.blockSize (s.size - block.1) := hlength
    omega
  have hle : ((s.batch sha decisions).blocks.map List.length).sum ≤ bytes (s.serving decisions) := by
    rw [batch, List.map_map]
    exact List.sum_le_sum fun block _ => s.length_block_le block
  exact hle.trans (bytes_serve_le hblocks)

/-! ## Runs -/

/-- The session after a step, whether it returned or raised. -/
def after (sha : Bytes → Bytes) (s : Sender) (decisions : Decisions) : Sender :=
  match (step sha decisions).run s with
  | .ok _ s' => s'
  | .error _ s' => s'

/-- No step keeps new blocks while a kept block has to wait: the signatures run ahead and
nothing is kept, or what is left of the file fits, or the step sends every kept block that
was asked for. -/
def Timely (s : Sender) (decisions : Decisions) : Prop :=
  s.alike decisions = true ∨ s.kept + (s.size - s.offset) ≤ max window s.blockSize ∨
    ∀ before block later, s.asked decisions = before ++ block :: later → block.1 ∈ s.cache →
      before = [] ∨ bytes before + block.2 ≤ window

/-- What a sender keeps stays within the window, or it is one block. -/
structure Bounded (s : Sender) : Prop extends Sound s where
  bound : s.kept ≤ max window s.blockSize

theorem kept_gathered_le (s : Sender) (decisions : Decisions) :
    (s.gathered decisions).kept ≤ s.kept :=
  (weight_forget_le ..).trans (weight_forget_le ..)

theorem ahead_mul_le (hmatching : s.matching = false) :
    s.ahead * s.blockSize ≤ max window s.blockSize := by
  have hdiv : window / s.blockSize * s.blockSize ≤ window := Nat.div_mul_le_self ..
  rw [ahead, hmatching, if_neg Bool.false_ne_true]
  rcases le_total 1 (window / s.blockSize) with hle | hle
  · rw [max_eq_right hle]
    omega
  · rw [max_eq_left hle]
    omega

/-- A step that sends every kept block that was asked for keeps none of them. -/
theorem Sound.kept_gathered (h : s.Sound) {decisions : Decisions} (hfit : s.Fitting decisions)
    (hserved : ∀ before block later, s.asked decisions = before ++ block :: later →
      block.1 ∈ s.cache → before = [] ∨ bytes before + block.2 ≤ window) :
    (s.gathered decisions).kept = 0 := by
  refine Dict.weight_eq_zero fun offset hmem => ?_
  obtain ⟨block, hblock, rfl⟩ := List.mem_map.mp ((h.gathered hfit).keys offset hmem)
  obtain ⟨before, later, hsplit, hne, hlt⟩ := lt_bytes_of_mem_serve hblock
  have hcached : block.1 ∈ s.cache := (mem_forget.mp (mem_forget.mp hmem).1).1
  rcases hserved before block later hsplit hcached with hnil | hle
  · exact hne rfl hnil
  · omega

theorem Bounded.stepped (h : s.Bounded) {decisions : Decisions} (hfit : s.Fitting decisions)
    (htimely : s.Timely decisions) : (s.stepped sha decisions).Bounded := by
  refine ⟨h.toSound.stepped hfit, ?_⟩
  have hkept := s.kept_gathered_le decisions
  have hbound := h.bound
  have hsigned : (s.stepped sha decisions).kept ≤
      (s.gathered decisions).kept + bytes (s.signing decisions) :=
    kept_signed_le ..
  have hsize : (s.stepped sha decisions).blockSize = s.blockSize := rfl
  rw [hsize]
  cases hmode : s.alike decisions with
  | true =>
      have hsame : (s.stepped sha decisions).kept = (s.gathered decisions).kept := by
        rw [Sender.stepped, hmode]
        rfl
      omega
  | false =>
      rcases htimely with halike | hleft | hserved
      · rw [hmode] at halike
        cases halike
      · have hrest := bytes_upcoming_le_sub s.blockSize s.size (s.gathered decisions).ahead s.offset
        exact hsigned.trans ((Nat.add_le_add hkept hrest).trans hleft)
      · have hzero := h.toSound.kept_gathered hfit hserved
        have hfull := bytes_upcoming_le_mul s.blockSize s.size (s.gathered decisions).ahead s.offset
        have hahead : (s.gathered decisions).ahead * s.blockSize ≤ max window s.blockSize :=
          ahead_mul_le hmode
        rw [hzero, Nat.zero_add] at hsigned
        exact hsigned.trans (hfull.trans hahead)

/-- The session as a machine that takes decisions. -/
def tell (sha : Bytes → Bytes) (s : Sender) (decisions : Decisions) : Option Sender :=
  some (s.after sha decisions)

theorem after_of_fitting (h : s.Sound) {decisions : Decisions} (hfit : s.Fitting decisions) :
    s.after sha decisions = s.stepped sha decisions := by
  rw [after, step_run h hfit]

theorem Bounded.after (h : s.Bounded) {decisions : Decisions} (htimely : s.Timely decisions) :
    (s.after sha decisions).Bounded := by
  by_cases hfit : s.Fitting decisions
  · rw [after_of_fitting h.toSound hfit]
    exact h.stepped hfit htimely
  · obtain ⟨error, herror⟩ := step_error sha h.toSound hfit
    rw [Sender.after, herror]
    exact h

theorem blockSize_after (h : s.Sound) (decisions : Decisions) :
    (s.after sha decisions).blockSize = s.blockSize := by
  by_cases hfit : s.Fitting decisions
  · rw [after_of_fitting h hfit]
    rfl
  · obtain ⟨error, herror⟩ := step_error sha h hfit
    rw [Sender.after, herror]

/-- A session that was opened keeps nothing. -/
theorem new_bounded {path : Node} {blockSize : ℤ} (hnew : new path blockSize = .ok s) :
    s.Bounded ∧ (s.blockSize : ℤ) = blockSize := by
  by_cases hblock : 0 < blockSize ∧ blockSize ≤ maxBlockSize
  case neg =>
    rw [new, checkBlockSize, if_neg hblock] at hnew
    cases hnew
  rw [new, checkBlockSize, if_pos hblock] at hnew
  cases path with
  | absent => cases hnew
  | symlink => cases hnew
  | special => cases hnew
  | regular file =>
      cases hnew
      refine ⟨⟨⟨rfl, rfl, by simpa using hblock.1, Nat.zero_le _, by simp, by simp, by simp⟩,
        Nat.zero_le _⟩, Int.toNat_of_nonneg hblock.1.le⟩

/-- While no kept block waits behind older requests, a sender keeps no more than the window
or one block, and no message carries more than that. -/
theorem memory_bounded (sha : Bytes → Bytes) {path : Node} {blockSize : ℤ} {s₀ s : Sender}
    (hnew : new path blockSize = .ok s₀) (decisions : List Decisions)
    (htimely : Machine.meets (tell sha) Timely s₀ decisions)
    (hrun : Machine.run (tell sha) s₀ decisions = some s) :
    (s.kept : ℤ) ≤ max (window : ℤ) blockSize ∧ ∀ next batch s', (step sha next).run s = .ok batch s' →
      (((batch.blocks.map List.length).sum : ℕ) : ℤ) ≤ max (window : ℤ) blockSize := by
  obtain ⟨hbounded, hblockSize⟩ := new_bounded hnew
  have hinv := Machine.run_invariant (fun s => s.Bounded ∧ (s.blockSize : ℤ) = blockSize)
    (fun s decisions s' h hok hstep => by
      cases hstep
      exact ⟨h.1.after hok, by rw [blockSize_after h.1.toSound, h.2]⟩)
    hrun htimely ⟨hbounded, hblockSize⟩
  obtain ⟨hs, hsize⟩ := hinv
  have hbound := hs.bound
  refine ⟨by omega, fun next batch s' hstep => ?_⟩
  by_cases hfit : s.Fitting next
  · have hle := hs.toSound.bytes_batch_le sha hfit
    rw [step_run hs.toSound hfit] at hstep
    cases hstep
    omega
  · obtain ⟨error, herror⟩ := step_error sha hs.toSound hfit
    rw [herror] at hstep
    cases hstep

/-- The receiver holds the second block of a file of three bytes. -/
def oneRefusal : List Decisions := [.none, .list [false, true]]

theorem oneRefusal_bounded :
    ∃ s₀ s, new (.regular ⟨1, [1, 2, 3]⟩) 2 = .ok s₀ ∧
      Machine.meets (tell Receiver.sampleSha) Timely s₀ oneRefusal ∧
      Machine.run (tell Receiver.sampleSha) s₀ oneRefusal = some s ∧
      (s.kept : ℤ) ≤ max (window : ℤ) 2 := by
  obtain ⟨s₀, hnew⟩ : ∃ s₀, new (.regular ⟨1, [1, 2, 3]⟩) 2 = .ok s₀ := ⟨_, rfl⟩
  have htimely : Machine.meets (tell Receiver.sampleSha) Timely s₀ oneRefusal := by
    cases hnew
    refine ⟨.inr (.inl (by decide)), ?_⟩
    rintro s ⟨⟩
    exact ⟨.inr (.inl (by decide)), fun _ _ => trivial⟩
  obtain ⟨s, hrun⟩ : ∃ s, Machine.run (tell Receiver.sampleSha) s₀ oneRefusal = some s := ⟨_, rfl⟩
  exact ⟨s₀, s, hnew, htimely, hrun, (memory_bounded _ hnew oneRefusal htimely hrun).1⟩

/-- A file of 67 blocks of 8 MiB. -/
def large : Bytes := List.replicate (67 * window) 0

attribute [irreducible] large

theorem length_large : large.length = 67 * window := by
  unfold large
  exact List.length_replicate

/-- The session that sends it. -/
def opening : Sender where
  path := .regular ⟨1, large⟩
  old := ⟨1, large⟩
  blockSize := window
  size := 67 * window
  offset := 0
  sent := []
  requests := []
  cache := ∅
  matching := false
  chain := []

theorem new_large : new (.regular ⟨1, large⟩) window = .ok opening := by
  simp [new, checkBlockSize, maxBlockSize, window, openRegular, opening, length_large]
  rfl

/-- The first block matches, the 64 blocks after it do not, and neither does the next one. -/
def lateRefusals : List Decisions :=
  [.none, .list [true], .list (List.replicate 64 false), .list [false]]

theorem opening_sound : opening.Sound :=
  ⟨rfl, length_large.symm, by decide, Nat.zero_le _, nofun, nofun, nofun⟩

/-- What is kept, counted by the offsets. -/
theorem Sound.kept_eq (h : s.Sound) :
    s.kept = (s.cache.keys.map fun offset => min s.blockSize (s.size - offset)).sum := by
  have hkeys : s.cache.keys = s.cache.entries.map Sigma.fst := rfl
  rw [hkeys, List.map_map, kept, Dict.weight]
  refine congrArg List.sum (List.map_congr_left fun entry hmem => ?_)
  have hlookup : s.cache.lookup entry.1 = some entry.2 := AList.mem_lookup_iff.mpr hmem
  rw [h.cached _ _ hlookup, length_readAt, ← h.size]
  exact min_eq_left (min_le_right _ _)

/-- The first `n` steps of that session. -/
def late (n : ℕ) : Sender := (lateRefusals.take n).foldl (stepped Receiver.sampleSha) opening

theorem late_sound : (late 1).Sound ∧ (late 2).Sound ∧ (late 3).Sound ∧ (late 4).Sound := by
  have hfit₀ : opening.Fitting .none := rfl
  have h₁ : (late 1).Sound := opening_sound.stepped hfit₀
  have h₂ : (late 2).Sound := h₁.stepped (by decide +kernel)
  have h₃ : (late 3).Sound := h₂.stepped (by decide +kernel)
  exact ⟨h₁, h₂, h₃, h₃.stepped (by decide +kernel)⟩

/-- The answers fit what the sender signed, but two blocks of 8 MiB are kept at the end. -/
theorem lateRefusals_kept :
    new (.regular ⟨1, large⟩) window = .ok opening ∧
      Machine.meets (tell Receiver.sampleSha) Fitting opening lateRefusals ∧
      ∃ s, Machine.run (tell Receiver.sampleSha) opening lateRefusals = some s ∧
        s.kept = 2 * window ∧ max window s.blockSize = window := by
  obtain ⟨h₁, h₂, h₃, h₄⟩ := late_sound
  have hfit₀ : opening.Fitting .none := rfl
  have hfit₁ : (late 1).Fitting (.list [true]) := by decide +kernel
  have hfit₂ : (late 2).Fitting (.list (List.replicate 64 false)) := by decide +kernel
  have hfit₃ : (late 3).Fitting (.list [false]) := by decide +kernel
  have hstep₀ : tell Receiver.sampleSha opening .none = some (late 1) :=
    congrArg some (after_of_fitting opening_sound hfit₀)
  have hstep₁ : tell Receiver.sampleSha (late 1) (.list [true]) = some (late 2) :=
    congrArg some (after_of_fitting h₁ hfit₁)
  have hstep₂ : tell Receiver.sampleSha (late 2) (.list (List.replicate 64 false)) =
      some (late 3) :=
    congrArg some (after_of_fitting h₂ hfit₂)
  have hstep₃ : tell Receiver.sampleSha (late 3) (.list [false]) = some (late 4) :=
    congrArg some (after_of_fitting h₃ hfit₃)
  refine ⟨new_large, ⟨hfit₀, ?_⟩, late 4, ?_, ?_, rfl⟩
  · intro s hs
    cases hstep₀.symm.trans hs
    refine ⟨hfit₁, fun s hs => ?_⟩
    cases hstep₁.symm.trans hs
    refine ⟨hfit₂, fun s hs => ?_⟩
    cases hstep₂.symm.trans hs
    exact ⟨hfit₃, fun _ _ => trivial⟩
  · rw [lateRefusals, Machine.run_cons, hstep₀, Option.bind_some, Machine.run_cons, hstep₁,
      Option.bind_some, Machine.run_cons, hstep₂, Option.bind_some, Machine.run_cons, hstep₃]
    rfl
  · rw [h₄.kept_eq]
    decide +kernel

end Sender

end FileSync

end Rmote
