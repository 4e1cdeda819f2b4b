import Mathlib.Data.List.Perm.Basic
import Mathlib.Data.List.Perm.Subperm
import Rmote.Endpoint.Answer
import Rmote.Endpoint.Numbers
import Rmote.Endpoint.Stop
import Rmote.Library.Counting

/-!
# Two endpoints

`Pair` joins two endpoints by the packets that each of them wrote. A packet is written in
one stretch of the task that sends it, before `drain`, and the peer obtains it later: the
packets of different tasks overtake each other, and a connection that breaks loses them.
Both ends call, stream and serve at once, and their packet numbers coincide.

The request of a call is served at most once, by a handler or by a refusal, and it gets at
most one response. A call that ends with a value has it from the handler that serves its
own request.
-/

namespace Rmote

/-- The ends of a connection. -/
inductive Side where
  | left
  | right
  deriving DecidableEq, Repr

def Side.peer : Side → Side
  | .left => .right
  | .right => .left

/-- Who wrote a packet. -/
inductive Source where
  /-- The call or the stream with this number. -/
  | request (packetId : ℕ)
  /-- The handler with this number, as its response. -/
  | answer (number : ℕ)
  /-- The receive loop. -/
  | refusal
  /-- A permission or the stop of a stream, its items, or log records. -/
  | other
  deriving DecidableEq, Repr

def Source.request? : Source → Option ℕ
  | .request packetId => some packetId
  | _ => none

def Source.answer? : Source → Option ℕ
  | .answer number => some number
  | _ => none

namespace Raw

/-- A request under the number, or a permission. -/
def requests (raw : Raw) (packetId : ℕ) : Bool :=
  raw.flags.has Flags.request && raw.packetId == packetId

/-- A response under the number that is no item. -/
def responds (raw : Raw) (packetId : ℕ) : Bool :=
  raw.flags.has Flags.response && !raw.flags.has Flags.stream && raw.packetId == packetId

end Raw

def HandlerPhase.sends : HandlerPhase → Bool
  | .responding _ => true
  | _ => false

/-- Two endpoints. `written` are the packets of a side in the order of their last frames,
and `wire` those of them that its peer has not obtained. `refused` tells whether the loop
of a side wrote the refusal that it is sending. -/
structure Pair where
  ends : Side → Endpoint
  written : Side → List (Source × Raw)
  wire : Side → List Raw
  refused : Side → Bool

/-- The steps of two endpoints. -/
inductive PairEvent where
  /-- A stretch of one side that writes and obtains no packet. -/
  | turn (side : Side) (event : EndpointEvent)
  /-- A call or a stream gets the write lock and writes the last frame of its request. -/
  | ask (side : Side) (packetId : ℕ) (streaming : Bool) (raw : Raw)
  /-- A handler writes its response. -/
  | answer (side : Side) (number : ℕ) (raw : Raw)
  /-- The loop writes its refusal. -/
  | refuse (side : Side) (raw : Raw)
  | other (side : Side) (raw : Raw)
  /-- The peer obtains a packet of the side. -/
  | deliver (side : Side) (index : ℕ)
  | lose (side : Side) (index : ℕ)

namespace Pair

def init (acceptCode acceptCalls : Side → Bool) : Pair where
  ends side := Endpoint.init (acceptCode side) (acceptCalls side)
  written _ := []
  wire _ := []
  refused _ := false

def setEnd (s : Pair) (side : Side) (t : Endpoint) : Pair :=
  { s with ends := Function.update s.ends side t }

def put (s : Pair) (side : Side) (origin : Source) (raw : Raw) : Pair :=
  { s with
    written := Function.update s.written side (s.written side ++ [(origin, raw)])
    wire := Function.update s.wire side (s.wire side ++ [raw]) }

def takeOut (s : Pair) (side : Side) (index : ℕ) : Pair :=
  { s with wire := Function.update s.wire side ((s.wire side).eraseIdx index) }

/-- The handler wrote its response. -/
def answered (s : Pair) (side : Side) (number : ℕ) : Bool :=
  (s.written side).any fun entry => entry.1 == .answer number

/-- A request is written in a step of its own. A send returns only when its packet is
written, and then only `drain` can raise. -/
def permits (s : Pair) (side : Side) : EndpointEvent → Bool
  | .receive _ => false
  | .callStep _ .write => (s.ends side).writerClosing
  | .streamStep _ .write => (s.ends side).writerClosing
  | .handlerStep number .responded => s.answered side number
  | .handlerStep number (.respondFail _ draining) => draining || !s.answered side number
  | .replied => s.refused side
  | .replyFail _ draining => draining || !s.refused side
  | _ => true

/-- One stretch of one side, or what the network does. -/
def step (C : Side → Codec) (s : Pair) : PairEvent → Option Pair
  | .turn side event =>
      if s.permits side event then
        ((s.ends side).step (C side) event).map (s.setEnd side)
      else
        none
  | .ask side packetId streaming raw =>
      if (s.ends side).writerClosing = false ∧ raw.requests packetId ∧
          raw.flags.has Flags.stream = false ∧ raw.flags.has Flags.response = false then
        ((s.ends side).step (C side)
          (if streaming then .streamStep packetId .write else .callStep packetId .write)).map
            fun t => (s.setEnd side t).put side (.request packetId) raw
      else
        none
  | .answer side number raw =>
      ((s.ends side).handlers number).bind fun handler =>
        if (s.ends side).writerClosing = false ∧ handler.phase.sends ∧
            s.answered side number = false ∧ raw.responds handler.packetId ∧
            raw.flags.has Flags.request = false then
          some (s.put side (.answer number) raw)
        else
          none
  | .refuse side raw =>
      match (s.ends side).loop with
      | .replying packetId _ =>
          if (s.ends side).writerClosing = false ∧ s.refused side = false ∧
              raw.responds packetId ∧ raw.flags.has Flags.exception ∧
              raw.flags.has Flags.request = false then
            some { s.put side .refusal raw with refused := Function.update s.refused side true }
          else
            none
      | _ => none
  | .other side raw =>
      if (raw.flags.has Flags.request = true → ((s.ends side).streams raw.packetId).isSome) ∧
          raw.responds raw.packetId = false then
        some (s.put side .other raw)
      else
        none
  | .deliver side index =>
      (s.wire side)[index]?.bind fun raw =>
        ((s.ends side.peer).step (C side.peer) (.receive raw)).map fun t =>
          { (s.setEnd side.peer t).takeOut side index with
            refused := Function.update s.refused side.peer false }
  | .lose side index => some (s.takeOut side index)

end Pair

/-! ## The books of one side -/

namespace Endpoint

/-- The handlers that serve a request under the number. -/
def servants (t : Endpoint) (packetId : ℕ) : ℕ :=
  (List.range (t.lastHandler + 1)).countP fun n =>
    (t.handlers n).map Handler.packetId == some packetId

/-- The loop is about to write a refusal under the number. -/
def refusing (t : Endpoint) (refused : Bool) (packetId : ℕ) : ℕ :=
  match t.loop with
  | .replying p _ => if p = packetId ∧ refused = false then 1 else 0
  | _ => 0

variable {t t' : Endpoint}

theorem Serves.servants (h : Serves t t') (packetId : ℕ) :
    t'.servants packetId = t.servants packetId := by
  rw [Endpoint.servants, Endpoint.servants, h.last]
  congr 1
  funext n
  rw [h.handlers n]

theorem Serves.refusing_le (h : Serves t t') (refused : Bool) (packetId : ℕ) :
    t'.refusing refused packetId ≤ t.refusing refused packetId := by
  cases hloop : t'.loop with
  | replying p fallback =>
      obtain ⟨before, hbefore⟩ := h.loop p fallback hloop
      simp only [refusing, hloop, hbefore, le_refl]
  | receiving => simp [refusing, hloop]
  | ended => simp [refusing, hloop]

theorem refusing_of_not_replying (h : ∀ p fallback, t.loop ≠ .replying p fallback)
    (refused : Bool) (packetId : ℕ) : t.refusing refused packetId = 0 := by
  cases hloop : t.loop with
  | replying p fallback => exact absurd hloop (h p fallback)
  | receiving => simp [refusing, hloop]
  | ended => simp [refusing, hloop]

/-- A request brings one handler or one refusal under its number. -/
theorem Accepts.servants {p : ℕ} (h : Accepts t p t') (packetId : ℕ) :
    t'.servants packetId + t'.refusing false packetId =
      t.servants packetId + if p = packetId then 1 else 0 := by
  cases h with
  | refused fallback hloop hhandlers hlast =>
      have hservants : t'.servants packetId = t.servants packetId := by
        rw [Endpoint.servants, Endpoint.servants, hlast]
        congr 1
        funext n
        rw [hhandlers n]
      rw [hservants]
      simp [refusing, hloop]
  | scheduled hloop hhandlers hlast =>
      rw [refusing_of_not_replying hloop, Endpoint.servants, Endpoint.servants, hlast,
        List.range_succ, List.countP_append, Nat.add_zero]
      congr 1
      · refine List.countP_congr fun n hn => ?_
        rw [hhandlers n, if_neg (List.mem_range.mp hn).ne]
      · rw [List.countP_singleton, hhandlers, if_pos rfl]
        simp

/-- The handler that serves a request counts. -/
theorem servants_pos (hnumbered : t.Numbered) {n packetId : ℕ} {h : Handler}
    (hh : t.handlers n = some h) (hid : h.packetId = packetId) : 0 < t.servants packetId := by
  rw [servants, List.countP_pos_iff]
  refine ⟨n, List.mem_range.mpr (Nat.lt_succ_of_le (hnumbered.le hh)), ?_⟩
  simp [hh, hid]

/-- Two handlers of one number count twice. -/
theorem eq_of_servants_le_one (hnumbered : t.Numbered) {packetId : ℕ}
    (hone : t.servants packetId ≤ 1) {n n' : ℕ} {h h' : Handler} (hh : t.handlers n = some h)
    (hh' : t.handlers n' = some h') (hid : h.packetId = packetId) (hid' : h'.packetId = packetId) :
    n = n' := by
  have hmem : ∀ {m : ℕ} {k : Handler}, t.handlers m = some k →
      m ∈ List.range (t.lastHandler + 1) := fun hk =>
    List.mem_range.mpr (Nat.lt_succ_of_le (hnumbered.le hk))
  exact Counting.eq_of_countP_le_one hone (hmem hh) (hmem hh') (by simp [hh, hid])
    (by simp [hh', hid'])

end Endpoint

/-- What a side wrote agrees with its endpoint: a request once, under the number of its call
or stream, a response once, by the handler of its number, and under every number no more
handlers and refusals than requests that the loop obtained. -/
structure Ledger (C : Codec) (t : Endpoint) (written : List (Source × Raw)) (refused : Bool) :
    Prop where
  distinct : t.Distinct
  numbered : t.Numbered
  hears : t.Hears C
  requests : ∀ p raw, (.request p, raw) ∈ written → raw.requests p = true ∧ t.asked p = true
  requestsOnce : (written.filterMap fun entry => entry.1.request?).Nodup
  answers : ∀ n raw, (.answer n, raw) ∈ written →
    (t.handlers n).map Handler.packetId = some raw.packetId
  answersOnce : (written.filterMap fun entry => entry.1.answer?).Nodup
  kinds : ∀ entry ∈ written, ∀ p,
    (entry.2.requests p = true → entry.1 = .request p ∨ (t.streams p).isSome = true) ∧
      (entry.2.responds p = true → (∃ n, entry.1 = .answer n) ∨
        entry.1 = .refusal ∧ entry.2.flags.has Flags.exception = true)
  served : ∀ p, t.servants p +
      (written.countP fun entry => entry.1 == .refusal && entry.2.packetId == p) +
      t.refusing refused p ≤ t.received.countP fun raw => raw.requests p

namespace Ledger

variable {C : Codec} {t t' : Endpoint} {written : List (Source × Raw)} {refused : Bool}
  {event : EndpointEvent} {raw : Raw}

theorem init (C : Codec) (acceptCode acceptCalls : Bool) :
    Ledger C (Endpoint.init acceptCode acceptCalls) [] false where
  distinct := Endpoint.distinct_init acceptCode acceptCalls
  numbered _ _ := rfl
  hears := Endpoint.hears_init C acceptCode acceptCalls
  requests _ _ h := absurd h List.not_mem_nil
  requestsOnce := List.nodup_nil
  answers _ _ h := absurd h List.not_mem_nil
  answersOnce := List.nodup_nil
  kinds _ h := absurd h List.not_mem_nil
  served _ := Nat.le_of_eq rfl

/-- What a step of the endpoint leaves, apart from the requests that it serves. -/
theorem stepped (h : Ledger C t written refused) (hstep : t.step C event = some t')
    (hanswers : ∀ n p, (t.handlers n).map Handler.packetId = some p →
      (t'.handlers n).map Handler.packetId = some p) {refused' : Bool}
    (hserved : ∀ p, t'.servants p +
      (written.countP fun entry => entry.1 == .refusal && entry.2.packetId == p) +
      t'.refusing refused' p ≤ t'.received.countP fun raw => raw.requests p) :
    Ledger C t' written refused' where
  distinct := h.distinct.step hstep
  numbered := h.numbered.step hstep
  hears := h.hears.step hstep
  requests p raw hmem :=
    ⟨(h.requests p raw hmem).1, h.distinct.asked hstep (h.requests p raw hmem).2⟩
  requestsOnce := h.requestsOnce
  answers n raw hmem := hanswers n _ (h.answers n raw hmem)
  answersOnce := h.answersOnce
  kinds entry hmem p := by
    obtain ⟨hrequests, hresponds⟩ := h.kinds entry hmem p
    refine ⟨fun hrequest => ?_, hresponds⟩
    rcases hrequests hrequest with horigin | hstream
    · exact .inl horigin
    · exact .inr (h.distinct.call hstep hstream)
  served := hserved

/-- A step that obtains no packet. -/
theorem turn (h : Ledger C t written refused) (hstep : t.step C event = some t')
    (hreceive : ∀ raw, event ≠ .receive raw) : Ledger C t' written refused := by
  have hserves := Endpoint.step_serves hstep hreceive
  have hreceived := Endpoint.step_received hstep hreceive
  refine h.stepped hstep (fun n p hn => (hserves.handlers n).trans hn) fun p => ?_
  have hle := h.served p
  have hrefusing := hserves.refusing_le refused p
  rw [hserves.servants, hreceived]
  omega

/-- A step that obtains a packet, which may be a request. -/
theorem receive (h : Ledger C t written refused) (hstep : t.step C (.receive raw) = some t') :
    Ledger C t' written false := by
  have hloop : t.loop = .receiving ∧ t' = t.receive C raw := by
    simp only [Endpoint.step] at hstep
    split at hstep
    · rename_i hloop
      exact ⟨hloop, (Option.some.inj hstep).symm⟩
    · cases hstep
  obtain ⟨hreceiving, rfl⟩ := hloop
  have hnot : ∀ p fallback, t.loop ≠ .replying p fallback := by
    intro p fallback heq
    rw [hreceiving] at heq
    cases heq
  rcases Endpoint.receive_serves C raw hreceiving with hserves | ⟨hrequest, haccepts⟩
  · refine h.stepped hstep (fun n p hn => (hserves.handlers n).trans hn) fun p => ?_
    have hle := h.served p
    have hrefusing := hserves.refusing_le false p
    rw [Endpoint.refusing_of_not_replying hnot] at hle hrefusing
    rw [hserves.servants, Endpoint.received_receive, List.countP_append]
    omega
  · refine h.stepped hstep (fun n p hn => ?_) fun p => ?_
    · cases haccepts with
      | refused fallback _ hhandlers _ => exact (hhandlers n).trans hn
      | scheduled _ hhandlers _ =>
          have hne : n ≠ t.lastHandler + 1 := by
            rintro rfl
            rw [h.numbered _ (Nat.lt_succ_self _)] at hn
            cases hn
          rw [hhandlers, if_neg hne]
          exact hn
    · have hle := h.served p
      have hcount := haccepts.servants p
      have hraw : raw.requests p = decide (raw.packetId = p) := by
        simp [Raw.requests, hrequest, beq_eq_decide]
      rw [Endpoint.refusing_of_not_replying hnot] at hle
      rw [Endpoint.received_receive, List.countP_append, List.countP_singleton, hraw]
      simp only [decide_eq_true_eq]
      omega

/-- A packet is written. -/
theorem put (h : Ledger C t written refused) {origin : Source} {refused' : Bool}
    (hrequests : ∀ p, origin.request? = some p → raw.requests p = true ∧ t.asked p = true ∧
      p ∉ written.filterMap fun entry => entry.1.request?)
    (hanswers : ∀ n, origin.answer? = some n →
      (t.handlers n).map Handler.packetId = some raw.packetId ∧
        n ∉ written.filterMap fun entry => entry.1.answer?)
    (hkinds : (raw.flags.has Flags.request = true →
        origin = .request raw.packetId ∨ (t.streams raw.packetId).isSome = true) ∧
      (raw.responds raw.packetId = true → (∃ n, origin = .answer n) ∨
        origin = .refusal ∧ raw.flags.has Flags.exception = true))
    (hrefusal : ∀ p, (if origin == .refusal && raw.packetId == p then 1 else 0) +
      t.refusing refused' p ≤ t.refusing refused p) :
    Ledger C t (written ++ [(origin, raw)]) refused' where
  distinct := h.distinct
  numbered := h.numbered
  hears := h.hears
  requests p raw' hmem := by
    rcases List.mem_append.mp hmem with hmem | hmem
    · exact h.requests p raw' hmem
    · cases List.mem_singleton.mp hmem
      exact ⟨(hrequests p rfl).1, (hrequests p rfl).2.1⟩
  requestsOnce := Counting.nodup_filterMap_snoc h.requestsOnce fun p hp => (hrequests p hp).2.2
  answers n raw' hmem := by
    rcases List.mem_append.mp hmem with hmem | hmem
    · exact h.answers n raw' hmem
    · cases List.mem_singleton.mp hmem
      exact (hanswers n rfl).1
  answersOnce := Counting.nodup_filterMap_snoc h.answersOnce fun n hn => (hanswers n hn).2
  kinds entry hmem p := by
    rcases List.mem_append.mp hmem with hmem | hmem
    · exact h.kinds entry hmem p
    · obtain rfl := List.mem_singleton.mp hmem
      refine ⟨fun hrequests => ?_, fun hresponds => ?_⟩
      · obtain ⟨hflag, hid⟩ := Bool.and_eq_true_iff.mp hrequests
        obtain rfl := beq_iff_eq.mp hid
        exact hkinds.1 hflag
      · obtain ⟨-, hid⟩ := Bool.and_eq_true_iff.mp hresponds
        obtain rfl := beq_iff_eq.mp hid
        exact hkinds.2 hresponds
  served p := by
    have hle := h.served p
    have hone := hrefusal p
    simp only [List.countP_append, List.countP_singleton]
    omega

/-- A call or a stream writes its request. -/
theorem ask (h : Ledger C t written refused) (hwriter : t.writerClosing = false) {p : ℕ}
    {streaming : Bool} (hrequests : raw.requests p = true)
    (hresponse : raw.flags.has Flags.response = false)
    (hstep : t.step C (if streaming then .streamStep p .write else .callStep p .write) = some t') :
    Ledger C t' (written ++ [(.request p, raw)]) refused := by
  obtain ⟨hbefore, hafter⟩ := h.distinct.write hwriter hstep
  have hturn : Ledger C t' written refused := by
    refine h.turn hstep fun raw heq => ?_
    cases streaming <;> cases heq
  obtain ⟨hflag, hid⟩ := Bool.and_eq_true_iff.mp hrequests
  obtain rfl := beq_iff_eq.mp hid
  refine hturn.put (fun q hq => ?_) (fun n hn => ?_) ⟨fun _ => .inl rfl, fun hresponds => ?_⟩
    fun q => ?_
  · obtain rfl := Option.some.inj hq
    refine ⟨hrequests, hafter, fun hmem => ?_⟩
    obtain ⟨entry, hentry, horigin⟩ := List.mem_filterMap.mp hmem
    have hasked : t.asked raw.packetId = true := by
      obtain ⟨origin, raw'⟩ := entry
      cases origin with
      | request q =>
          obtain rfl := Option.some.inj horigin
          exact (h.requests _ raw' hentry).2
      | answer _ => cases horigin
      | refusal => cases horigin
      | other => cases horigin
    rw [hbefore] at hasked
    cases hasked
  · cases hn
  · simp [Raw.responds, hresponse] at hresponds
  · simp

/-- A handler writes its response. -/
theorem answer (h : Ledger C t written refused) {n : ℕ} {handler : Handler}
    (hhandler : t.handlers n = some handler) (hresponds : raw.responds handler.packetId = true)
    (hrequest : raw.flags.has Flags.request = false)
    (hfirst : written.any (fun entry => entry.1 == .answer n) = false) :
    Ledger C t (written ++ [(.answer n, raw)]) refused := by
  have hid : raw.packetId = handler.packetId :=
    beq_iff_eq.mp (Bool.and_eq_true_iff.mp hresponds).2
  refine h.put (fun p hp => ?_) (fun m hm => ?_) ⟨fun hflag => ?_, fun _ => .inl ⟨n, rfl⟩⟩
    fun p => ?_
  · cases hp
  · obtain rfl := Option.some.inj hm
    refine ⟨by rw [hhandler, hid]; rfl, fun hmem => ?_⟩
    obtain ⟨entry, hentry, horigin⟩ := List.mem_filterMap.mp hmem
    have hnot := List.any_eq_false.mp hfirst entry hentry
    obtain ⟨origin, raw'⟩ := entry
    cases origin with
    | answer m =>
        obtain rfl := Option.some.inj horigin
        simp at hnot
    | request _ => cases horigin
    | refusal => cases horigin
    | other => cases horigin
  · rw [hrequest] at hflag
    cases hflag
  · simp

/-- The loop writes its refusal. -/
theorem refuse (h : Ledger C t written false) {p : ℕ} {fallback : Bool}
    (hloop : t.loop = .replying p fallback) (hresponds : raw.responds p = true)
    (hexception : raw.flags.has Flags.exception = true)
    (hrequest : raw.flags.has Flags.request = false) :
    Ledger C t (written ++ [(.refusal, raw)]) true := by
  have hid : raw.packetId = p := beq_iff_eq.mp (Bool.and_eq_true_iff.mp hresponds).2
  refine h.put (fun q hq => ?_) (fun n hn => ?_) ⟨fun hflag => ?_, fun _ => .inr ⟨rfl, hexception⟩⟩
    fun q => ?_
  · cases hq
  · cases hn
  · rw [hrequest] at hflag
    cases hflag
  · simp [Endpoint.refusing, hloop, hid]

/-- A packet is written that is neither the request of a call nor a response. -/
theorem other (h : Ledger C t written refused)
    (hrequest : raw.flags.has Flags.request = true → (t.streams raw.packetId).isSome = true)
    (hresponse : raw.responds raw.packetId = false) :
    Ledger C t (written ++ [(.other, raw)]) refused := by
  refine h.put (fun p hp => ?_) (fun n hn => ?_) ⟨fun hflag => .inr (hrequest hflag),
    fun hresponds => ?_⟩ fun p => ?_
  · cases hp
  · cases hn
  · rw [hresponse] at hresponds
    cases hresponds
  · simp

/-- The responses under a number are those of its handlers, and the refusals. -/
theorem responses_le (h : Ledger C t written refused) (p : ℕ) :
    (written.countP fun entry => entry.2.responds p) ≤ t.servants p +
      written.countP fun entry => entry.1 == .refusal && entry.2.packetId == p := by
  have hsplit : (written.countP fun entry => entry.2.responds p) ≤
      (written.countP fun entry => entry.1.answer?.isSome && entry.2.packetId == p) +
        written.countP fun entry => entry.1 == .refusal && entry.2.packetId == p := by
    refine Counting.countP_le_add fun entry hentry hresponds => ?_
    have hid : (entry.2.packetId == p) = true := (Bool.and_eq_true_iff.mp hresponds).2
    rcases (h.kinds entry hentry p).2 hresponds with ⟨n, horigin⟩ | ⟨horigin, -⟩
    · exact .inl (by simp [horigin, hid, Source.answer?])
    · exact .inr (by simp [horigin, hid])
  have hnumbers : (written.countP fun entry => entry.1.answer?.isSome && entry.2.packetId == p) ≤
      t.servants p := by
    rw [← List.countP_filter, ← List.length_filterMap_eq_countP]
    refine Counting.length_le_countP id ?_ fun n hn => ?_
    · exact (List.filter_sublist.filterMap _).nodup h.answersOnce
    · obtain ⟨entry, hentry, horigin⟩ := List.mem_filterMap.mp hn
      obtain ⟨hmem, hid⟩ := List.mem_filter.mp hentry
      obtain ⟨origin, raw⟩ := entry
      have hanswer : origin = .answer n := by
        cases origin with
        | answer m => exact congrArg Source.answer (Option.some.inj horigin)
        | request _ => cases horigin
        | refusal => cases horigin
        | other => cases horigin
      subst hanswer
      have hhandler := h.answers n raw hmem
      refine ⟨n, List.mem_range.mpr (Nat.lt_succ_of_le ?_), ?_, rfl⟩
      · obtain ⟨handler, hh, -⟩ := Option.map_eq_some_iff.mp hhandler
        exact h.numbered.le hh
      · rw [hhandler]
        simpa using hid
  omega

end Ledger

/-! ## The steps of the pair -/

@[simp] theorem Side.peer_peer (side : Side) : side.peer.peer = side := by cases side <;> rfl

namespace Pair

/-- The books of both sides agree with their endpoints, and what a side obtained and has on
the wire was written by its peer, each packet once. -/
structure Sound (C : Side → Codec) (s : Pair) : Prop where
  ledger : ∀ side, Ledger (C side) (s.ends side) (s.written side) (s.refused side)
  flow : ∀ side, ((s.ends side.peer).received ++ s.wire side).Subperm
    ((s.written side).map Prod.snd)

variable {C : Side → Codec} {s s' : Pair} {side : Side} {t : Endpoint}

theorem sound_init (C : Side → Codec) (acceptCode acceptCalls : Side → Bool) :
    Sound C (init acceptCode acceptCalls) :=
  ⟨fun _ => Ledger.init .., fun _ => List.Subperm.refl _⟩

/-- One side changes and obtains nothing. -/
theorem Sound.setEnd (h : Sound C s)
    (hledger : Ledger (C side) t (s.written side) (s.refused side))
    (hreceived : t.received = (s.ends side).received) : Sound C (s.setEnd side t) := by
  refine ⟨fun x => ?_, fun x => ?_⟩
  · simp only [Pair.setEnd, Function.update_apply]
    split_ifs with hx
    · rw [hx]
      exact hledger
    · exact h.ledger x
  · simp only [Pair.setEnd, Function.update_apply]
    have hflow := h.flow x
    split_ifs with hx
    · rw [hreceived, ← hx]
      exact hflow
    · exact hflow

/-- One side writes a packet, and its loop may note a refusal. -/
theorem Sound.write (h : Sound C s) {origin : Source} {raw : Raw} {refused : Bool}
    (hledger : Ledger (C side) (s.ends side) (s.written side ++ [(origin, raw)]) refused) :
    Sound C { s.put side origin raw with refused := Function.update s.refused side refused } := by
  refine ⟨fun x => ?_, fun x => ?_⟩
  · simp only [Pair.put, Function.update_apply]
    split_ifs with hx
    · rw [hx]
      exact hledger
    · exact h.ledger x
  · simp only [Pair.put, Function.update_apply]
    split_ifs with hx
    · rw [hx, List.map_append, ← List.append_assoc]
      exact (h.flow side).append (List.Subperm.refl [raw])
    · exact h.flow x

theorem Sound.put (h : Sound C s) {origin : Source} {raw : Raw}
    (hledger : Ledger (C side) (s.ends side) (s.written side ++ [(origin, raw)])
      (s.refused side)) : Sound C (s.put side origin raw) := by
  have hwrite := h.write hledger
  rw [Function.update_eq_self] at hwrite
  exact hwrite

/-- A packet leaves the wire. -/
theorem Sound.takeOut (h : Sound C s) (side : Side) (index : ℕ) :
    Sound C (s.takeOut side index) := by
  refine ⟨h.ledger, fun x => ?_⟩
  simp only [Pair.takeOut, Function.update_apply]
  split_ifs with hx
  · rw [hx]
    refine List.Subperm.trans ?_ (h.flow side)
    exact (List.Subperm.refl _).append (List.eraseIdx_sublist _ index).subperm
  · exact h.flow x

/-- The peer obtains a packet of the wire. -/
theorem Sound.deliver (h : Sound C s) {index : ℕ} {raw : Raw}
    (hraw : (s.wire side)[index]? = some raw)
    (hledger : Ledger (C side.peer) t (s.written side.peer) false)
    (hreceived : t.received = (s.ends side.peer).received ++ [raw]) :
    Sound C { (s.setEnd side.peer t).takeOut side index with
      refused := Function.update s.refused side.peer false } := by
  refine ⟨fun x => ?_, fun x => ?_⟩
  · simp only [Pair.setEnd, Pair.takeOut, Function.update_apply]
    split_ifs with hx
    · rw [hx]
      exact hledger
    · exact h.ledger x
  · simp only [Pair.setEnd, Pair.takeOut, Function.update_apply]
    by_cases hx : x = side
    · obtain ⟨hlt, rfl⟩ := List.getElem?_eq_some_iff.mp hraw
      subst hx
      rw [if_pos rfl, if_pos rfl, hreceived, List.append_assoc]
      refine List.Subperm.trans (List.Perm.subperm ?_) (h.flow x)
      exact (List.getElem_cons_eraseIdx_perm hlt).append_left _
    · have hpeer : x.peer ≠ side.peer := by
        intro heq
        exact hx (by rw [← Side.peer_peer x, heq, Side.peer_peer])
      rw [if_neg hpeer, if_neg hx]
      exact h.flow x

theorem not_receive_of_permits {event : EndpointEvent} (h : s.permits side event = true)
    (raw : Raw) : event ≠ .receive raw := by
  rintro rfl
  cases h

theorem Sound.step (h : Sound C s) {event : PairEvent} (hstep : s.step C event = some s') :
    Sound C s' := by
  cases event with
  | turn side event =>
      simp only [Pair.step] at hstep
      split_ifs at hstep with hpermits
      obtain ⟨t, ht, rfl⟩ := Option.map_eq_some_iff.mp hstep
      have hreceive := not_receive_of_permits hpermits
      exact h.setEnd ((h.ledger side).turn ht hreceive) (Endpoint.step_received ht hreceive)
  | ask side packetId streaming raw =>
      simp only [Pair.step] at hstep
      obtain ⟨⟨hwriter, hrequests, -, hresponse⟩, hmap⟩ := Option.ite_none_right_eq_some.mp hstep
      obtain ⟨t, ht, rfl⟩ := Option.map_eq_some_iff.mp hmap
      have hreceive : ∀ raw, (if streaming then EndpointEvent.streamStep packetId .write
          else .callStep packetId .write) ≠ .receive raw := by
        intro raw heq
        cases streaming <;> cases heq
      have hend := h.setEnd ((h.ledger side).turn ht hreceive)
        (Endpoint.step_received ht hreceive)
      refine hend.put ?_
      simp only [Pair.setEnd, Function.update_self]
      exact (h.ledger side).ask hwriter hrequests hresponse ht
  | answer side number raw =>
      obtain ⟨handler, hhandler, hguard⟩ := Option.bind_eq_some_iff.mp hstep
      split_ifs at hguard with hall
      obtain ⟨-, -, hfirst, hresponds, hrequest⟩ := hall
      obtain rfl := Option.some.inj hguard
      exact h.put ((h.ledger side).answer hhandler hresponds hrequest hfirst)
  | refuse side raw =>
      simp only [Pair.step] at hstep
      split at hstep
      · rename_i packetId fallback hloop
        split_ifs at hstep with hguard
        obtain ⟨-, hrefused, hresponds, hexception, hrequest⟩ := hguard
        obtain rfl := Option.some.inj hstep
        have hledger := h.ledger side
        rw [hrefused] at hledger
        exact h.write (hledger.refuse hloop hresponds hexception hrequest)
      · cases hstep
  | other side raw =>
      simp only [Pair.step] at hstep
      split_ifs at hstep with hguard
      obtain rfl := Option.some.inj hstep
      exact h.put ((h.ledger side).other hguard.1 hguard.2)
  | deliver side index =>
      obtain ⟨raw, hraw, hmap⟩ := Option.bind_eq_some_iff.mp hstep
      obtain ⟨t, ht, rfl⟩ := Option.map_eq_some_iff.mp hmap
      refine h.deliver hraw ((h.ledger side.peer).receive ht) ?_
      simp only [Endpoint.step] at ht
      split at ht
      · obtain rfl := Option.some.inj ht
        exact Endpoint.received_receive ..
      · cases ht
  | lose side index =>
      obtain rfl := Option.some.inj hstep
      exact h.takeOut side index

theorem sound_run {acceptCode acceptCalls : Side → Bool} {es : List PairEvent}
    (hrun : Machine.run (step C) (init acceptCode acceptCalls) es = some s) : Sound C s :=
  Machine.run_always (Sound C) (fun _ _ _ h hstep => h.step hstep) hrun
    (sound_init C acceptCode acceptCalls)

/-! ## What a call gets -/

/-- A call sends one request. -/
theorem Sound.requested (h : Sound C s) {p : ℕ} {c : Call}
    (hcall : (s.ends side).calls p = some c) :
    (s.written side).countP (fun entry => entry.2.requests p) ≤ 1 := by
  have hledger := h.ledger side
  have hstream : ((s.ends side).streams p).isSome = false :=
    hledger.distinct.apart p (by rw [hcall]; rfl)
  refine (Counting.countP_le_count_filterMap (f := fun entry => entry.1.request?) (b := p)
    fun entry hentry hrequests => ?_).trans (List.nodup_iff_count_le_one.mp hledger.requestsOnce p)
  rcases (hledger.kinds entry hentry p).1 hrequests with horigin | hsome
  · rw [horigin]
    rfl
  · rw [hstream] at hsome
    cases hsome

/-- The peer obtains the request of a call at most once. -/
theorem Sound.obtained (h : Sound C s) {p : ℕ} {c : Call}
    (hcall : (s.ends side).calls p = some c) :
    (s.ends side.peer).received.countP (fun raw => raw.requests p) ≤ 1 := by
  have hflow := (h.flow side).countP_le fun raw => raw.requests p
  rw [List.countP_append, List.countP_map] at hflow
  have hone := h.requested hcall
  have hsame : (fun raw : Raw => raw.requests p) ∘ Prod.snd =
      fun entry : Source × Raw => entry.2.requests p := rfl
  rw [hsame] at hflow
  omega

/-- What happens to the request of one call at the peer: one handler serves it or the loop
refuses it, and it gets one response. -/
structure ServedOnce (s : Pair) (side : Side) (packetId : ℕ) : Prop where
  handlers : ∀ n n' h h', (s.ends side.peer).handlers n = some h →
    (s.ends side.peer).handlers n' = some h' → h.packetId = packetId → h'.packetId = packetId →
      n = n'
  refused : ∀ raw, (.refusal, raw) ∈ s.written side.peer → raw.packetId = packetId →
    ∀ n h, (s.ends side.peer).handlers n = some h → h.packetId ≠ packetId
  written : (s.written side.peer).countP (fun entry => entry.2.responds packetId) ≤ 1
  received : (s.ends side).received.countP (fun raw => raw.responds packetId) ≤ 1

theorem Sound.servedOnce (h : Sound C s) {p : ℕ} {c : Call}
    (hcall : (s.ends side).calls p = some c) : s.ServedOnce side p := by
  have hledger := h.ledger side.peer
  have hserved := hledger.served p
  have hobtained := h.obtained hcall
  have hwritten : (s.written side.peer).countP (fun entry => entry.2.responds p) ≤ 1 := by
    have hresponses := hledger.responses_le p
    omega
  refine ⟨fun n n' handler handler' hh hh' => ?_, fun raw hraw hid n handler hh hhid => ?_,
    hwritten, ?_⟩
  · exact Endpoint.eq_of_servants_le_one hledger.numbered (by omega) hh hh'
  · have hservant := Endpoint.servants_pos hledger.numbered hh hhid
    have hrefusal : 0 < (s.written side.peer).countP
        fun entry => entry.1 == .refusal && entry.2.packetId == p :=
      List.countP_pos_iff.mpr ⟨_, hraw, by simp [hid]⟩
    omega
  · have hflow := (h.flow side.peer).countP_le fun raw => raw.responds p
    rw [List.countP_append, List.countP_map, Side.peer_peer] at hflow
    have hsame : (fun raw : Raw => raw.responds p) ∘ Prod.snd =
        fun entry : Source × Raw => entry.2.responds p := rfl
    rw [hsame] at hflow
    omega

/-- In every run of two endpoints, whatever the network loses and whichever packets overtake
each other, the request of a call is served at most once, and a call that the peer refused
is not served: not when its caller is cancelled, and not when the connection ends. -/
theorem served_once (C : Side → Codec) (acceptCode acceptCalls : Side → Bool)
    {es : List PairEvent} (hrun : Machine.run (step C) (init acceptCode acceptCalls) es = some s)
    {p : ℕ} {c : Call} (hcall : (s.ends side).calls p = some c) : s.ServedOnce side p :=
  (sound_run hrun).servedOnce hcall

/-- The way of a value: the only request that the peer obtained under the number of the call
is the one that the call wrote, a handler serves it, and the response of this handler is
decoded to the value. -/
structure Served (C : Codec) (s : Pair) (side : Side) (packetId : ℕ) (value : Decoded Bytes)
    (request response : Raw) (number : ℕ) : Prop where
  asked : (.request packetId, request) ∈ s.written side
  obtained : request ∈ (s.ends side.peer).received
  only : ∀ raw ∈ (s.ends side.peer).received, raw.requests packetId = true → raw = request
  handler : ((s.ends side.peer).handlers number).map Handler.packetId = some packetId
  answered : (.answer number, response) ∈ s.written side.peer
  received : response ∈ (s.ends side).received
  value : Resolves C response (.result value)

theorem Sound.mem_written (h : Sound C s) {raw : Raw}
    (hraw : raw ∈ (s.ends side.peer).received) : ∃ origin, (origin, raw) ∈ s.written side := by
  have hmem := (h.flow side).subset (List.mem_append_left _ hraw)
  obtain ⟨⟨origin, raw'⟩, hentry, rfl⟩ := List.mem_map.mp hmem
  exact ⟨origin, hentry⟩

theorem Sound.value (h : Sound C s) {p : ℕ} {c : Call} (hcall : (s.ends side).calls p = some c)
    {value : Decoded Bytes} (hphase : c.phase = .done (.value value)) :
    ∃ request response n, s.Served (C side) side p value request response n := by
  obtain ⟨response, hresponse, hid, hsettles⟩ :=
    ((h.ledger side).hears.calls p c hcall).done _ hphase rfl
  have hresponse' : response ∈ (s.ends side.peer.peer).received := by
    rw [Side.peer_peer]
    exact hresponse
  obtain ⟨origin, hentry⟩ := h.mem_written hresponse'
  obtain ⟨n, rfl⟩ : ∃ n, origin = .answer n := by
    cases hsettles with
    | value acceptCode packet packet' hdecode hunpack hflag hstream hexception =>
        have hresponds : response.responds p = true := by
          simp [Raw.responds, hflag, hstream, hid]
        rcases ((h.ledger side.peer).kinds _ hentry p).2 hresponds with hanswer | ⟨-, hraised⟩
        · exact hanswer
        · rw [hexception] at hraised
          cases hraised
  have hhandler := (h.ledger side.peer).answers n response hentry
  rw [hid] at hhandler
  obtain ⟨handler, hh, hhid⟩ := Option.map_eq_some_iff.mp hhandler
  have hservant := Endpoint.servants_pos (h.ledger side.peer).numbered hh hhid
  have hserved := (h.ledger side.peer).served p
  obtain ⟨request, hrequest, hrequests⟩ := List.countP_pos_iff.mp
    (lt_of_lt_of_le hservant (by omega) : 0 < (s.ends side.peer).received.countP
      fun raw => raw.requests p)
  obtain ⟨origin, hasked⟩ := h.mem_written hrequest
  have horigin : origin = .request p := by
    rcases ((h.ledger side).kinds _ hasked p).1 hrequests with horigin | hstream
    · exact horigin
    · rw [(h.ledger side).distinct.apart p (by rw [hcall]; rfl)] at hstream
      cases hstream
  subst horigin
  exact ⟨request, response, n, hasked, hrequest, fun raw hraw hraws =>
    Counting.eq_of_countP_le_one (h.obtained hcall) hraw hrequest hraws hrequests,
    hhandler, hentry, hresponse, hsettles⟩

/-- In every run of two endpoints, a call that ends with a value got it from the handler
that serves its own request. -/
theorem value_of_handler (C : Side → Codec) (acceptCode acceptCalls : Side → Bool)
    {es : List PairEvent} (hrun : Machine.run (step C) (init acceptCode acceptCalls) es = some s)
    {p : ℕ} {c : Call} (hcall : (s.ends side).calls p = some c) {value : Decoded Bytes}
    (hphase : c.phase = .done (.value value)) :
    ∃ request response n, s.Served (C side) side p value request response n :=
  (sound_run hrun).value hcall hphase

/-- Both sides load a tool of the other under the number 1, and the responses cross. -/
def crossing : List PairEvent :=
  [.turn .left .call, .turn .right .call,
    .ask .left 1 false ⟨[75, 1, 46], Flags.sync ||| Flags.request, 1⟩,
    .ask .right 1 false ⟨[75, 2, 46], Flags.sync ||| Flags.request, 1⟩,
    .turn .left (.callStep 1 .sent), .deliver .left 0, .deliver .right 0,
    .turn .left (.handlerStep 1 .start), .turn .right (.handlerStep 1 .start),
    .turn .right (.handlerStep 1 .return), .turn .left (.handlerStep 1 .return),
    .answer .right 1 ⟨[78, 46], Flags.sync ||| Flags.response, 1⟩,
    .answer .left 1 ⟨[75, 3, 46], Flags.sync ||| Flags.response, 1⟩,
    .deliver .right 0, .deliver .left 0, .turn .left .respond, .turn .right .respond,
    .turn .left (.callStep 1 .resume)]

theorem crossing_served_once :
    ∃ s, Machine.run (step fun _ => Codec.plain) (init (fun _ => true) fun _ => true) crossing =
      some s ∧ s.ServedOnce .left 1 := by
  have hrun : Machine.run (step fun _ => Codec.plain) (init (fun _ => true) fun _ => true)
    crossing = some _ := rfl
  exact ⟨_, hrun, served_once (fun _ => Codec.plain) (fun _ => true) (fun _ => true) hrun rfl⟩

theorem crossing_value :
    ∃ s c, Machine.run (step fun _ => Codec.plain) (init (fun _ => true) fun _ => true) crossing =
      some s ∧ (s.ends .left).calls 1 = some c ∧ c.phase = .done (.value (.value [78, 46])) ∧
      ∃ request response n, s.Served Codec.plain .left 1 (.value [78, 46]) request response n := by
  have hrun : Machine.run (step fun _ => Codec.plain) (init (fun _ => true) fun _ => true)
    crossing = some _ := rfl
  exact ⟨_, _, hrun, rfl, rfl,
    value_of_handler (fun _ => Codec.plain) (fun _ => true) (fun _ => true) hrun rfl rfl⟩

end Pair

end Rmote
