import Rmote.Cli.SftpServer

/-!
# Texts and their bytes

`decodeText` is `bytes.decode("utf-8", "surrogateescape")`. A well-formed sequence is its code
point, and a byte of anything else is the lone surrogate that stands for it. So nothing is lost:
the text is encoded as the bytes that it was decoded from.
-/

namespace Rmote

namespace Sftp

/-- What the bytes behind the first one of a sequence look like. -/
def isContinuation (b : UInt8) : Prop := 0x80 ≤ b.toNat ∧ b.toNat < 0xc0

instance (b : UInt8) : Decidable (isContinuation b) :=
  inferInstanceAs (Decidable (0x80 ≤ b.toNat ∧ b.toNat < 0xc0))

/-- The code point of a sequence of two bytes. -/
def twoBytes (lead : UInt8) : Bytes → Option ℕ
  | b :: _ =>
      let n := (lead.toNat - 0xc0) * 64 + (b.toNat - 0x80)
      if 0xc2 ≤ lead.toNat ∧ lead.toNat < 0xe0 ∧ isContinuation b then some n else none
  | [] => none

/-- The code point of a sequence of three bytes. It is no surrogate. -/
def threeBytes (lead : UInt8) : Bytes → Option ℕ
  | b :: c :: _ =>
      let n := (lead.toNat - 0xe0) * 4096 + (b.toNat - 0x80) * 64 + (c.toNat - 0x80)
      if 0xe0 ≤ lead.toNat ∧ lead.toNat < 0xf0 ∧ isContinuation b ∧ isContinuation c ∧
          0x800 ≤ n ∧ ¬(0xd800 ≤ n ∧ n < 0xe000) then some n
      else none
  | _ => none

/-- The code point of a sequence of four bytes. -/
def fourBytes (lead : UInt8) : Bytes → Option ℕ
  | b :: c :: d :: _ =>
      let n := (lead.toNat - 0xf0) * 262144 + (b.toNat - 0x80) * 4096 + (c.toNat - 0x80) * 64 +
        (d.toNat - 0x80)
      if 0xf0 ≤ lead.toNat ∧ lead.toNat < 0xf5 ∧ isContinuation b ∧ isContinuation c ∧
          isContinuation d ∧ 0x10000 ≤ n ∧ n < 0x110000 then some n
      else none
  | _ => none

/-- The code point at the front, and the number of its bytes behind the first one. A byte that
starts no sequence is escaped. -/
def decodePoint (b : UInt8) (rest : Bytes) : ℕ × ℕ :=
  if b.toNat < 0x80 then (b.toNat, 0)
  else
    match twoBytes b rest, threeBytes b rest, fourBytes b rest with
    | some n, _, _ => (n, 1)
    | none, some n, _ => (n, 2)
    | none, none, some n => (n, 3)
    | none, none, none => (0xdc00 + b.toNat, 0)

/-- The text behind so many bytes. -/
def decodeFrom : ℕ → Bytes → PyText
  | _, [] => []
  | 0, b :: rest => (decodePoint b rest).1 :: decodeFrom (decodePoint b rest).2 rest
  | skip + 1, _ :: rest => decodeFrom skip rest

/-- `data.decode("utf-8", "surrogateescape")`. -/
def decodeText (data : Bytes) : PyText := decodeFrom 0 data

example : decodeText [0x41, 0xe2, 0x82, 0xac, 0xe2, 0x82] = [0x41, 0x20ac, 0xdce2, 0xdc82] := by
  decide

section Decode

variable {lead b : UInt8} {rest : Bytes} {n : ℕ}

theorem ofNat_eq_of_toNat (h : n = b.toNat) : UInt8.ofNat n = b := by
  rw [h, UInt8.ofNat_toNat]

theorem ne_of_isContinuation (h : isContinuation b) : 0 ≠ b := by
  rintro rfl
  exact absurd h.1 (by decide)

theorem twoBytes_spec (h : twoBytes lead rest = some n) :
    encodePoint n = .ok (lead :: rest.take 1) ∧ 0 ∉ rest.take 1 := by
  cases rest with
  | nil => cases h
  | cons b rest =>
      rw [twoBytes] at h
      split_ifs at h with hwell
      obtain ⟨hlow, hhigh, hb⟩ := hwell
      have hn := Option.some.inj h
      have hnul : 0 ∉ List.take 1 (b :: rest) := by
        rw [List.take_succ_cons, List.take_zero, List.mem_singleton]
        exact ne_of_isContinuation hb
      unfold isContinuation at hb
      refine ⟨?_, hnul⟩
      rw [encodePoint, if_neg (by omega), if_pos (by omega),
        ofNat_eq_of_toNat (b := lead) (by omega), ofNat_eq_of_toNat (b := b) (by omega)]
      rfl

theorem threeBytes_spec (h : threeBytes lead rest = some n) :
    encodePoint n = .ok (lead :: rest.take 2) ∧ 0 ∉ rest.take 2 := by
  unfold threeBytes at h
  split at h
  · rename_i b c rest
    dsimp only at h
    split_ifs at h with hwell
    obtain ⟨hlow, hhigh, hb, hc, hmin, hsurrogate⟩ := hwell
    have hn := Option.some.inj h
    rw [hn] at hmin hsurrogate
    have hnul : 0 ∉ List.take 2 (b :: c :: rest) := by
      rw [List.take_succ_cons, List.take_succ_cons, List.take_zero, List.mem_cons,
        List.mem_singleton, not_or]
      exact ⟨ne_of_isContinuation hb, ne_of_isContinuation hc⟩
    unfold isContinuation at hb hc
    refine ⟨?_, hnul⟩
    rw [encodePoint, if_neg (by omega), if_neg (by omega), if_neg hsurrogate, if_pos (by omega),
      ofNat_eq_of_toNat (b := lead) (by omega), ofNat_eq_of_toNat (b := b) (by omega),
      ofNat_eq_of_toNat (b := c) (by omega)]
    rfl
  · cases h

theorem fourBytes_spec (h : fourBytes lead rest = some n) :
    encodePoint n = .ok (lead :: rest.take 3) ∧ 0 ∉ rest.take 3 := by
  unfold fourBytes at h
  split at h
  · rename_i b c d rest
    dsimp only at h
    split_ifs at h with hwell
    obtain ⟨hlow, hhigh, hb, hc, hd, hmin, hmax⟩ := hwell
    have hn := Option.some.inj h
    rw [hn] at hmin hmax
    have hnul : 0 ∉ List.take 3 (b :: c :: d :: rest) := by
      rw [List.take_succ_cons, List.take_succ_cons, List.take_succ_cons, List.take_zero,
        List.mem_cons, List.mem_cons, List.mem_singleton, not_or, not_or]
      exact ⟨ne_of_isContinuation hb, ne_of_isContinuation hc, ne_of_isContinuation hd⟩
    unfold isContinuation at hb hc hd
    refine ⟨?_, hnul⟩
    rw [encodePoint, if_neg (by omega), if_neg (by omega), if_neg (by omega), if_neg (by omega),
      ofNat_eq_of_toNat (b := lead) (by omega), ofNat_eq_of_toNat (b := b) (by omega),
      ofNat_eq_of_toNat (b := c) (by omega), ofNat_eq_of_toNat (b := d) (by omega)]
    rfl
  · cases h

/-- A byte that starts no sequence is no ASCII character, and its surrogate stands for it. -/
theorem encodePoint_escaped (h : ¬lead.toNat < 0x80) :
    encodePoint (0xdc00 + lead.toNat) = .ok [lead] := by
  have hlt := lead.toNat_lt
  rw [encodePoint, if_neg (by omega), if_neg (by omega), if_pos (by omega), if_pos (by omega),
    ofNat_eq_of_toNat (b := lead) (by omega)]

/-- A code point is encoded as the bytes that it was decoded from, and only NUL is a zero byte. -/
theorem decodePoint_spec (lead : UInt8) (rest : Bytes) :
    encodePoint (decodePoint lead rest).1 = .ok (lead :: rest.take (decodePoint lead rest).2) ∧
      ((decodePoint lead rest).1 ≠ 0 → 0 ∉ lead :: rest.take (decodePoint lead rest).2) := by
  have hlead (hhigh : ¬lead.toNat < 0x80) {bytes : Bytes} (h : 0 ∉ bytes) :
      0 ∉ lead :: bytes := by
    rw [List.mem_cons, not_or]
    refine ⟨?_, h⟩
    rintro rfl
    exact hhigh (by decide)
  unfold decodePoint
  by_cases hascii : lead.toNat < 0x80
  · rw [if_pos hascii]
    refine ⟨?_, fun hne hmem => hne ?_⟩
    · rw [encodePoint, if_pos hascii, UInt8.ofNat_toNat, List.take_zero]
    · rw [List.take_zero, List.mem_singleton] at hmem
      rw [← hmem]
      rfl
  · rw [if_neg hascii]
    split
    · rename_i n htwo
      obtain ⟨hencode, hnul⟩ := twoBytes_spec htwo
      exact ⟨hencode, fun _ => hlead hascii hnul⟩
    · rename_i n hthree
      obtain ⟨hencode, hnul⟩ := threeBytes_spec hthree
      exact ⟨hencode, fun _ => hlead hascii hnul⟩
    · rename_i n hfour
      obtain ⟨hencode, hnul⟩ := fourBytes_spec hfour
      exact ⟨hencode, fun _ => hlead hascii hnul⟩
    · exact ⟨encodePoint_escaped hascii, fun _ => hlead hascii List.not_mem_nil⟩

theorem decodeFrom_eq (skip : ℕ) (data : Bytes) :
    decodeFrom skip data = decodeText (data.drop skip) := by
  induction data generalizing skip with
  | nil =>
      rw [List.drop_nil]
      cases skip <;> rfl
  | cons b rest ih =>
      cases skip with
      | zero => rfl
      | succ skip => exact ih skip

theorem decodeText_cons (lead : UInt8) (rest : Bytes) :
    decodeText (lead :: rest) =
      (decodePoint lead rest).1 :: decodeText (rest.drop (decodePoint lead rest).2) := by
  rw [decodeText, decodeFrom, decodeFrom_eq]

/-- Texts that were decoded are encoded as the bytes that they come from, and have a NUL if these
have one. -/
theorem encodeText_decodeText (data : Bytes) :
    encodeText (decodeText data) = .ok data ∧ (0 ∉ decodeText data → 0 ∉ data) := by
  induction hlength : data.length using Nat.strong_induction_on generalizing data with
  | h length ih =>
      cases data with
      | nil => exact ⟨rfl, fun _ => List.not_mem_nil⟩
      | cons lead rest =>
          obtain ⟨hpoint, hnul⟩ := decodePoint_spec lead rest
          obtain ⟨hrest, hnul'⟩ := ih (rest.drop (decodePoint lead rest).2).length
            (by rw [← hlength, List.length_drop, List.length_cons]; omega) _ rfl
          have hsplit : (lead :: rest.take (decodePoint lead rest).2) ++
              rest.drop (decodePoint lead rest).2 = lead :: rest := by
            rw [List.cons_append, List.take_append_drop]
          rw [decodeText_cons]
          constructor
          · rw [encodeText, hpoint, hrest, ← hsplit]
            rfl
          · rw [List.mem_cons, not_or, ← hsplit, List.mem_append, not_or]
            exact fun h => ⟨hnul (Ne.symm h.1), hnul' h.2⟩

end Decode

end Sftp

end Rmote
