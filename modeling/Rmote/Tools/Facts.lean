import Rmote.Library.Assoc
import Rmote.Library.Counting
import Rmote.Library.Machine

/-!
# Collecting facts

A registry has the collectors of a call under their keys. `join` starts one task for each selected
key and lets a semaphore limit the calls. It returns when all of them gave a valid branch. When one
fails, or the caller is cancelled, it cancels the others and waits for them, so nothing of it runs
behind its end.
-/

namespace Rmote

namespace Facts

variable {V T E : Type}

/-- What the interpreter knows of the classes, with the models that `FactsData` declares. -/
structure Classes (V T : Type) where
  isinstance : V → T → Bool
  issubclass : T → T → Bool
  qualname : T → String
  hints : List (String × T)

structure Collector (T : Type) where
  key : String
  version : ℤ
  /-- `callable(collector.collect)` -/
  callable : Bool
  /-- `is_dataclass(collector.result_type)` -/
  dataclass : Bool
  resultType : T

/-- The registered collectors, in order. -/
structure Registry (T : Type) where
  collectors : List (Collector T)
  distinct : (collectors.map Collector.key).Nodup

namespace Registry

theorem distinct_snoc {collectors : List (Collector T)} {c : Collector T}
    (h : (collectors.map Collector.key).Nodup) (hnew : c.key ∉ collectors.map Collector.key) :
    ((collectors ++ [c]).map Collector.key).Nodup := by
  rw [List.map_append, List.map_singleton, ← List.concat_eq_append]
  exact h.concat hnew

/-- One round of the loop of `CollectorRegistry.__init__`. -/
def register (classes : Classes V T) (r : Registry T) (c : Collector T) :
    Except String (Registry T) :=
  if c.key = "" then .error "Collector key must be a nonempty string"
  else if hnew : c.key ∈ r.collectors.map Collector.key then
    .error ("Duplicate collector key: " ++ c.key)
  else if c.version < 1 then .error "Collector version must be a positive integer"
  else if !c.callable then .error "Collector collect must be callable"
  else if !c.dataclass then .error "Collector result_type must be a dataclass"
  else
    let registered : Registry T := ⟨r.collectors ++ [c], distinct_snoc r.distinct hnew⟩
    match classes.hints.lookup c.key with
    | some expected =>
        if classes.issubclass c.resultType expected then .ok registered
        else .error
          ("Collector " ++ c.key ++ " must declare a " ++ classes.qualname expected ++
            " result_type")
    | none => .ok registered

/-- `CollectorRegistry.__init__` -/
def build (classes : Classes V T) (collectors : List (Collector T)) :
    Except String (Registry T) :=
  collectors.foldlM (register classes) ⟨[], List.nodup_nil⟩

def get (r : Registry T) (key : String) : Option (Collector T) :=
  r.collectors.find? fun c => c.key = key

def select (r : Registry T) (sections : Option (List String)) : Except String (List String) :=
  let keys := match sections with
    | none => r.collectors.map Collector.key
    | some sections => (Assoc.ofPairs (sections.map fun key => (key, ()))).map Prod.fst
  match keys.find? fun key => key ∉ r.collectors.map Collector.key with
  | some key => .error ("Unknown collector key: " ++ key)
  | none => .ok keys

def validate (classes : Classes V T) (r : Registry T) (key : String) (data : V) :
    Except String Unit := do
  let _ ← r.select (some [key])
  match r.get key with
  | some c =>
      if classes.isinstance data c.resultType then pure ()
      else throw ("Collector " ++ key ++ " must return " ++ classes.qualname c.resultType)
  | none => throw ("Unknown collector key: " ++ key)

theorem select_nodup {r : Registry T} {sections : Option (List String)} {keys : List String}
    (h : r.select sections = .ok keys) : keys.Nodup := by
  unfold select at h
  dsimp only at h
  split at h
  · cases h
  · cases h
    cases sections with
    | none => exact r.distinct
    | some sections => exact Assoc.nodup_ofPairs _

end Registry

inductive Failure (E : Type) where
  | cancelled
  | raised (e : E)
  | value (message : String)

/-- Where the task of a key is. -/
inductive Phase (V E : Type) where
  /-- It waits for the semaphore. -/
  | waiting
  | calling
  | done (value : V)
  | failed (e : Failure E)

namespace Phase

def isCalling : Phase V E → Bool
  | calling => true
  | _ => false

def settled : Phase V E → Bool
  | done _ | failed _ => true
  | waiting | calling => false

def value : Phase V E → Option V
  | done value => some value
  | _ => none

/-- The most steps that the task can take. -/
def rank : Phase V E → ℕ
  | waiting => 2
  | calling => 1
  | done _ | failed _ => 0

end Phase

/-- Where `join` stands: at its first `gather`, or at the one of its handler. -/
inductive Stage (V E : Type) where
  | gathering
  | unwinding (e : Failure E)
  | returned (data : List (String × V))
  | raised (e : Failure E)

namespace Stage

def isOver : Stage V E → Bool
  | gathering | unwinding _ => false
  | returned _ | raised _ => true

def rank : Stage V E → ℕ
  | gathering => 2
  | unwinding _ => 1
  | returned _ | raised _ => 0

end Stage

/-- A `join` with its tasks. `failure` is what the first `gather` has, `calls` are the tasks that
called, and `answers` is what their calls gave. -/
structure Join (V E : Type) where
  keys : List String
  permits : ℕ
  tasks : List (Phase V E)
  stage : Stage V E
  /-- The tasks that are not done are cancelled. -/
  cancelling : Bool
  failure : Option (Failure E)
  /-- The caller was cancelled. -/
  cancelled : Bool
  calls : List ℕ
  answers : List (ℕ × Except (Failure E) V)

inductive Event (V E : Type) where
  /-- A task gets the semaphore and calls. -/
  | acquire (i : ℕ)
  | answer (i : ℕ) (result : Except (Failure E) V)
  /-- A task is cancelled while it waits for the semaphore. -/
  | drop (i : ℕ)
  /-- The caller is cancelled. -/
  | cancel
  /-- The `gather` is over. -/
  | resume
  /-- The caller was cancelled between the failure of a task and the end of the `gather`. -/
  | interrupt

namespace Event

def isCancel : Event V E → Bool
  | cancel => true
  | _ => false

/-- The task or `join` goes on by itself, with no answer from outside. -/
def isOwn : Event V E → Bool
  | acquire _ | drop _ | resume => true
  | _ => false

end Event

namespace Join

def init (concurrency : ℕ) (keys : List String) : Join V E where
  keys := keys
  permits := concurrency
  tasks := keys.map fun _ => .waiting
  stage := .gathering
  cancelling := false
  failure := none
  cancelled := false
  calls := []
  answers := []

def isSettled (s : Join V E) : Bool := s.tasks.all Phase.settled

/-- `values` has one entry for each task, in their order. -/
def values (s : Join V E) : List V := s.tasks.filterMap Phase.value

/-- The phase that a task ends with. -/
def outcome : Except (Failure E) V → Phase V E
  | .ok value => .done value
  | .error e => .failed e

def blame : Except (Failure E) V → Option (Failure E)
  | .ok _ => none
  | .error e => some e

/-- A task ends, and the first failure ends the `gather`. -/
def settle (s : Join V E) (i : ℕ) (result : Except (Failure E) V) : Join V E :=
  { s with
    tasks := s.tasks.set i (outcome result)
    failure := s.failure.or (blame result) }

end Join

/-- The end of `one`: a call gave a branch, which is validated behind the semaphore. -/
def checked (classes : Classes V T) (r : Registry T) (key : String) :
    Except (Failure E) V → Except (Failure E) V
  | .ok value =>
      match r.validate classes key value with
      | .ok _ => .ok value
      | .error message => .error (.value message)
  | .error e => .error e

namespace Join

def acquire (s : Join V E) (i : ℕ) : Option (Join V E) :=
  match s.tasks[i]? with
  | some .waiting =>
      if s.cancelling = false ∧ 0 < s.permits then
        some { s with
          permits := s.permits - 1
          tasks := s.tasks.set i .calling
          calls := s.calls ++ [i] }
      else none
  | _ => none

def answer (classes : Classes V T) (r : Registry T) (s : Join V E) (i : ℕ)
    (result : Except (Failure E) V) : Option (Join V E) :=
  match s.tasks[i]?, s.keys[i]? with
  | some .calling, some key =>
      let answered : Join V E :=
        { s with
          permits := s.permits + 1
          answers := s.answers ++ [(i, result)] }
      some (answered.settle i (checked classes r key result))
  | _, _ => none

def drop (s : Join V E) (i : ℕ) : Option (Join V E) :=
  match s.tasks[i]? with
  | some .waiting => if s.cancelling then some (s.settle i (.error .cancelled)) else none
  | _ => none

def cancel (s : Join V E) : Option (Join V E) :=
  match s.stage, s.failure with
  | .gathering, none => some { s with cancelling := true, cancelled := true }
  -- the `gather` is over already, and its tasks are not cancelled through it
  | .gathering, some _ => some { s with cancelled := true }
  | .unwinding _, _ => some { s with stage := .unwinding .cancelled, cancelled := true }
  | _, _ => none

def resume (s : Join V E) : Option (Join V E) :=
  match s.stage, s.failure with
  | .gathering, some e => some { s with stage := .unwinding e, cancelling := true }
  | .gathering, none =>
      if s.isSettled then
        if s.cancelled then some { s with stage := .unwinding .cancelled, cancelling := true }
        else some { s with stage := .returned (Assoc.ofPairs (s.keys.zip s.values)) }
      else none
  | .unwinding e, _ => if s.isSettled then some { s with stage := .raised e } else none
  | _, _ => none

def interrupt (s : Join V E) : Option (Join V E) :=
  match s.stage, s.failure with
  | .gathering, some _ =>
      if s.cancelled then some { s with stage := .unwinding .cancelled, cancelling := true }
      else none
  | _, _ => none

end Join

open Join

/-- The state after an event, if it can happen. -/
def step (classes : Classes V T) (r : Registry T) (s : Join V E) : Event V E → Option (Join V E)
  | .acquire i => s.acquire i
  | .answer i result => Join.answer classes r s i result
  | .drop i => s.drop i
  | .cancel => s.cancel
  | .resume => s.resume
  | .interrupt => s.interrupt

/-- The start of `fetch` and `gather`. -/
def start (r : Registry T) (sections : Option (List String)) (concurrency : ℤ) :
    Except String (Join V E) := do
  let keys ← r.select sections
  if concurrency < 1 then throw "concurrency must be a positive integer"
  pure (init concurrency.toNat keys)

/-! ## What every step keeps -/

namespace Join

variable {classes : Classes V T} {r : Registry T} {concurrency : ℕ} {s s' : Join V E} {i : ℕ}
  {t : Phase V E}

/-- The call of a task gave a branch that is valid under its key. -/
def Gave (classes : Classes V T) (r : Registry T) (s : Join V E) (i : ℕ) (value : V) : Prop :=
  (i, .ok value) ∈ s.answers ∧
    ∀ key, s.keys[i]? = some key → r.validate classes key value = .ok ()

/-- A failure comes from the caller or from the call of a task. -/
def Comes (classes : Classes V T) (r : Registry T) (s : Join V E) (e : Failure E) : Prop :=
  (e = .cancelled ∧ s.cancelled = true) ∨
    ∃ i result key, (i, result) ∈ s.answers ∧ s.keys[i]? = some key ∧
      checked classes r key result = .error e

/-- What holds of the tasks. -/
structure Tasks (classes : Classes V T) (r : Registry T) (concurrency : ℕ) (s : Join V E) :
    Prop where
  permits : s.permits + s.tasks.countP Phase.isCalling = concurrency
  length : s.tasks.length = s.keys.length
  called : ∀ i ∈ s.calls, ∃ t, s.tasks[i]? = some t ∧ t ≠ .waiting
  calls : s.calls.Nodup
  answered : ∀ i ∈ s.answers.map Prod.fst, ∃ t, s.tasks[i]? = some t ∧ t.settled = true
  answers : (s.answers.map Prod.fst).Nodup
  done : ∀ i value, s.tasks[i]? = some (.done value) → s.Gave classes r i value
  unfailed : s.failure = none → ∀ e, .failed e ∉ s.tasks

/-- What holds of the way to the end. -/
structure Ends (classes : Classes V T) (r : Registry T) (s : Join V E) : Prop where
  failure : ∀ e, s.failure = some e → s.Comes classes r e
  cancelling : s.cancelling = true → s.cancelled = true ∨ s.failure ≠ none
  unwinding : ∀ e, s.stage = .unwinding e → s.cancelling = true ∧ s.Comes classes r e
  raised : ∀ e, s.stage = .raised e → s.isSettled = true ∧ s.Comes classes r e
  returned : ∀ data, s.stage = .returned data →
    s.isSettled = true ∧ s.failure = none ∧ data = Assoc.ofPairs (s.keys.zip s.values)

theorem tasks_init (classes : Classes V T) (r : Registry T) (concurrency : ℕ)
    (keys : List String) : (init concurrency keys : Join V E).Tasks classes r concurrency where
  permits := by
    have hzero : (keys.map fun _ => (.waiting : Phase V E)).countP Phase.isCalling = 0 := by
      rw [List.countP_eq_zero]
      intro t ht
      obtain ⟨-, -, rfl⟩ := List.mem_map.mp ht
      simp [Phase.isCalling]
    rw [init, hzero, Nat.add_zero]
  length := List.length_map _
  called i h := absurd h List.not_mem_nil
  calls := List.nodup_nil
  answered i h := absurd h List.not_mem_nil
  answers := List.nodup_nil
  done i value h := by
    obtain ⟨-, -, h⟩ := List.mem_map.mp (List.mem_of_getElem? h)
    cases h
  unfailed _ e h := by
    obtain ⟨-, -, h⟩ := List.mem_map.mp h
    cases h

theorem ends_init (classes : Classes V T) (r : Registry T) (concurrency : ℕ)
    (keys : List String) : (init concurrency keys : Join V E).Ends classes r where
  failure e h := by cases h
  cancelling h := by cases h
  unwinding e h := by cases h
  raised e h := by cases h
  returned data h := by cases h

theorem isSettled_iff : s.isSettled = true ↔ ∀ t ∈ s.tasks, t.settled = true := List.all_eq_true

/-- A stage does not change the tasks. -/
theorem Tasks.restage (h : s.Tasks classes r concurrency) (stage : Stage V E)
    (cancelling cancelled : Bool) :
    ({ s with stage := stage, cancelling := cancelling, cancelled := cancelled }).Tasks classes r
      concurrency :=
  ⟨h.permits, h.length, h.called, h.calls, h.answered, h.answers, h.done, h.unfailed⟩

/-- A task with another phase is still not one of those that were left out. -/
theorem mem_set_cases {tasks : List (Phase V E)} {p : Phase V E → Prop} {j : ℕ} {t' : Phase V E}
    (hj : ∃ t, tasks[j]? = some t ∧ p t) (hi : p t') : ∃ t, (tasks.set i t')[j]? = some t ∧ p t := by
  obtain ⟨t, ht, hp⟩ := hj
  by_cases hij : i = j
  · subst hij
    exact ⟨t', List.getElem?_set_self (List.getElem?_eq_some_iff.mp ht).1, hi⟩
  · exact ⟨t, by rwa [List.getElem?_set_ne hij], hp⟩

theorem not_mem_called (h : s.Tasks classes r concurrency) (ht : s.tasks[i]? = some .waiting) :
    i ∉ s.calls := by
  intro hi
  obtain ⟨t, ht', hne⟩ := h.called i hi
  exact hne (Option.some.inj (ht'.symm.trans ht))

theorem not_mem_answered (h : s.Tasks classes r concurrency) (ht : s.tasks[i]? = some t)
    (hsettled : t.settled = false) : i ∉ s.answers.map Prod.fst := by
  intro hi
  obtain ⟨t', ht', hsettled'⟩ := h.answered i hi
  cases Option.some.inj (ht'.symm.trans ht)
  rw [hsettled] at hsettled'
  cases hsettled'

theorem Tasks.acquire (h : s.Tasks classes r concurrency) (ht : s.tasks[i]? = some .waiting)
    (hpermits : 0 < s.permits) :
    ({ s with
      permits := s.permits - 1
      tasks := s.tasks.set i .calling
      calls := s.calls ++ [i] }).Tasks classes r concurrency where
  permits := by
    have hset := Counting.countP_set_add Phase.isCalling .calling ht
    have hold := h.permits
    simp only [Phase.isCalling, Bool.false_eq_true, ite_false, ite_true] at hset
    dsimp only
    omega
  length := by
    dsimp only
    rw [List.length_set]
    exact h.length
  called j hj := by
    have hne : (.calling : Phase V E) ≠ .waiting := by rintro ⟨⟩
    rcases List.mem_append.mp hj with hj | hj
    · exact mem_set_cases (h.called j hj) hne
    · cases List.mem_singleton.mp hj
      exact ⟨.calling, List.getElem?_set_self (List.getElem?_eq_some_iff.mp ht).1, hne⟩
  calls := by
    rw [← List.concat_eq_append]
    exact h.calls.concat (not_mem_called h ht)
  answered j hj := by
    obtain ⟨t, ht', hsettled⟩ := h.answered j hj
    have hij : i ≠ j := by
      rintro rfl
      exact not_mem_answered h ht rfl hj
    exact ⟨t, by rwa [List.getElem?_set_ne hij], hsettled⟩
  answers := h.answers
  done j value hj := by
    rcases Counting.getElem?_set_cases hj with ⟨-, hvalue⟩ | ⟨-, hj⟩
    · cases hvalue
    · exact h.done j value hj
  unfailed hnone e he := by
    rcases List.mem_or_eq_of_mem_set he with he | he
    · exact h.unfailed hnone e he
    · cases he

theorem outcome_settled (result : Except (Failure E) V) : (outcome result).settled = true := by
  cases result <;> rfl

theorem outcome_ne_waiting (result : Except (Failure E) V) : outcome result ≠ .waiting := by
  intro h
  have hsettled := outcome_settled result
  rw [h] at hsettled
  cases hsettled

/-- A task that waits or calls ends. -/
theorem Tasks.settle (h : s.Tasks classes r concurrency) (ht : s.tasks[i]? = some t)
    (hsettled : t.settled = false) {permits : ℕ} {answers : List (ℕ × Except (Failure E) V)}
    (hpermits : permits = s.permits + if t.isCalling then 1 else 0)
    (hanswers : answers = s.answers ∨ ∃ result, answers = s.answers ++ [(i, result)])
    {result : Except (Failure E) V}
    (hresult : ∀ value, result = .ok value →
      ({ s with permits := permits, answers := answers }).Gave classes r i value) :
    (({ s with permits := permits, answers := answers } : Join V E).settle i result).Tasks classes r
      concurrency := by
  have hsub : ∀ a ∈ s.answers, a ∈ answers := by
    rintro a ha
    rcases hanswers with rfl | ⟨_, rfl⟩
    · exact ha
    · exact List.mem_append_left _ ha
  unfold Join.settle
  constructor
  case permits =>
    have hset := Counting.countP_set_add Phase.isCalling (outcome result) ht
    have hcalling : (outcome result).isCalling = false := by cases result <;> rfl
    have hold := h.permits
    rw [hcalling] at hset
    simp only [Bool.false_eq_true, ite_false] at hset
    dsimp only
    omega
  case length =>
    dsimp only
    rw [List.length_set]
    exact h.length
  case called => exact fun j hj => mem_set_cases (h.called j hj) (outcome_ne_waiting result)
  case calls => exact h.calls
  case answered =>
    intro j hj
    have hself : ∃ t, (s.tasks.set i (outcome result))[i]? = some t ∧ t.settled = true :=
      ⟨outcome result, List.getElem?_set_self (List.getElem?_eq_some_iff.mp ht).1,
        outcome_settled result⟩
    rcases hanswers with rfl | ⟨_, rfl⟩
    · exact mem_set_cases (h.answered j hj) (outcome_settled result)
    · rw [List.map_append, List.mem_append] at hj
      rcases hj with hj | hj
      · exact mem_set_cases (h.answered j hj) (outcome_settled result)
      · cases List.mem_singleton.mp hj
        exact hself
  case answers =>
    rcases hanswers with rfl | ⟨_, rfl⟩
    · exact h.answers
    · rw [List.map_append, List.map_singleton, ← List.concat_eq_append]
      exact h.answers.concat (not_mem_answered h ht hsettled)
  case done =>
    intro j value hj
    rcases Counting.getElem?_set_cases hj with ⟨rfl, hvalue⟩ | ⟨-, hj⟩
    · cases result with
      | ok value' =>
          cases hvalue
          exact hresult value rfl
      | error e => cases hvalue
    · exact ⟨hsub _ (h.done j value hj).1, (h.done j value hj).2⟩
  case unfailed =>
    intro hnone e he
    obtain ⟨hfailure, hblame⟩ := Option.or_eq_none_iff.mp hnone
    rcases List.mem_or_eq_of_mem_set he with he | he
    · exact h.unfailed hfailure e he
    · cases result with
      | ok value => cases he
      | error e => cases hblame

theorem Comes.mono {e : Failure E} (h : s.Comes classes r e) (hkeys : s'.keys = s.keys)
    (hanswers : ∀ a ∈ s.answers, a ∈ s'.answers) (hcancelled : s.cancelled = true →
      s'.cancelled = true) : s'.Comes classes r e := by
  rcases h with ⟨he, hc⟩ | ⟨i, result, key, ha, hkey, he⟩
  · exact .inl ⟨he, hcancelled hc⟩
  · exact .inr ⟨i, result, key, hanswers _ ha, hkeys ▸ hkey, he⟩

theorem not_isSettled (ht : s.tasks[i]? = some t) (hsettled : t.settled = false) :
    s.isSettled ≠ true := by
  intro h
  have h := isSettled_iff.mp h t (List.mem_of_getElem? ht)
  rw [hsettled] at h
  cases h

/-- A step of a task leaves the stage alone. `join` is not over, since a task was not done. -/
theorem Ends.work (h : s.Ends classes r) (ht : s.tasks[i]? = some t) (hsettled : t.settled = false)
    (hkeys : s'.keys = s.keys) (hstage : s'.stage = s.stage)
    (hcancelling : s'.cancelling = s.cancelling) (hcancelled : s'.cancelled = s.cancelled)
    (hanswers : ∀ a ∈ s.answers, a ∈ s'.answers)
    (hfailure : ∀ e, s'.failure = some e → s.failure = some e ∨ s'.Comes classes r e)
    (hkept : s.failure ≠ none → s'.failure ≠ none) : s'.Ends classes r where
  failure e he := by
    rcases hfailure e he with he | he
    · exact (h.failure e he).mono hkeys hanswers fun hc => hcancelled.trans hc
    · exact he
  cancelling hc := by
    rw [hcancelled]
    rcases h.cancelling (hcancelling ▸ hc) with hc | hc
    · exact .inl hc
    · exact .inr (hkept hc)
  unwinding e he := by
    obtain ⟨hc, he⟩ := h.unwinding e (hstage ▸ he)
    exact ⟨hcancelling.trans hc, he.mono hkeys hanswers fun hc => hcancelled.trans hc⟩
  raised e he := absurd (h.raised e (hstage ▸ he)).1 (not_isSettled ht hsettled)
  returned data hdata := absurd (h.returned data (hstage ▸ hdata)).1 (not_isSettled ht hsettled)

/-- What holds in every state of a `join`. -/
structure Sound (classes : Classes V T) (r : Registry T) (concurrency : ℕ) (keys : List String)
    (s : Join V E) : Prop where
  keys : s.keys = keys
  tasks : s.Tasks classes r concurrency
  ends : s.Ends classes r

variable {keys : List String}

theorem Sound.acquire (h : s.Sound classes r concurrency keys)
    (hstep : s.acquire i = some s') : s'.Sound classes r concurrency keys := by
  unfold Join.acquire at hstep
  split at hstep
  case h_2 => cases hstep
  case h_1 ht =>
    split_ifs at hstep with hfree
    cases Option.some.inj hstep
    refine ⟨h.keys, h.tasks.acquire ht hfree.2, ?_⟩
    exact h.ends.work ht rfl rfl rfl rfl rfl (fun _ ha => ha) (fun _ he => .inl he) fun hf => hf

theorem Sound.answer {result : Except (Failure E) V} (h : s.Sound classes r concurrency keys)
    (hstep : Join.answer classes r s i result = some s') :
    s'.Sound classes r concurrency keys := by
  unfold Join.answer at hstep
  split at hstep
  case h_2 => cases hstep
  case h_1 key ht hkey =>
    cases Option.some.inj hstep
    refine ⟨h.keys, h.tasks.settle ht rfl rfl (.inr ⟨result, rfl⟩) ?_, ?_⟩
    · intro value hvalue
      cases result with
      | error e => cases hvalue
      | ok data =>
          simp only [checked] at hvalue
          split at hvalue
          case h_2 => cases hvalue
          case h_1 hvalid =>
            cases hvalue
            refine ⟨List.mem_append_right _ List.mem_cons_self, fun key' hkey' => ?_⟩
            cases Option.some.inj (hkey'.symm.trans hkey)
            exact hvalid
    · refine h.ends.work ht rfl rfl rfl rfl rfl (fun _ => List.mem_append_left _) ?_ ?_
      · intro e he
        rcases Option.or_eq_some_iff.mp he with he | ⟨-, he⟩
        · exact .inl he
        · refine .inr (.inr ⟨i, result, key, List.mem_append_right _ List.mem_cons_self, hkey, ?_⟩)
          cases hchecked : checked classes r key result with
          | ok value =>
              rw [hchecked] at he
              cases he
          | error e' =>
              rw [hchecked] at he
              cases he
              rfl
      · intro hf hnone
        exact hf (Option.or_eq_none_iff.mp hnone).1

theorem Sound.drop (h : s.Sound classes r concurrency keys)
    (hstep : s.drop i = some s') : s'.Sound classes r concurrency keys := by
  unfold Join.drop at hstep
  split at hstep
  case h_2 => cases hstep
  case h_1 ht =>
    split_ifs at hstep with hcancelling
    cases Option.some.inj hstep
    refine ⟨h.keys, h.tasks.settle ht rfl rfl (.inl rfl) (fun _ hvalue => by cases hvalue), ?_⟩
    refine h.ends.work ht rfl rfl rfl rfl rfl (fun _ ha => ha) ?_ ?_
    · intro e he
      rcases Option.or_eq_some_iff.mp he with he | ⟨hnone, he⟩
      · exact .inl he
      · rcases h.ends.cancelling hcancelling with hc | hf
        · exact .inr (.inl ⟨(Option.some.inj he).symm, hc⟩)
        · exact absurd hnone hf
    · intro hf hnone
      exact hf (Option.or_eq_none_iff.mp hnone).1

theorem Sound.restage (h : s.Sound classes r concurrency keys) {stage : Stage V E}
    {cancelling cancelled : Bool}
    (hcancelled : s.cancelled = true → cancelled = true)
    (hcancelling : cancelling = true → cancelled = true ∨ s.failure ≠ none)
    (hunwinding : ∀ e, stage = .unwinding e →
      cancelling = true ∧ ((e = .cancelled ∧ cancelled = true) ∨ s.Comes classes r e))
    (hraised : ∀ e, stage = .raised e → s.isSettled = true ∧ s.Comes classes r e)
    (hreturned : ∀ data, stage = .returned data →
      s.isSettled = true ∧ s.failure = none ∧ data = Assoc.ofPairs (s.keys.zip s.values)) :
    ({ s with stage := stage, cancelling := cancelling, cancelled := cancelled }).Sound classes r
      concurrency keys := by
  have hcomes : ∀ e, s.Comes classes r e →
      ({ s with stage := stage, cancelling := cancelling, cancelled := cancelled }).Comes classes r
        e :=
    fun _ he => he.mono rfl (fun _ ha => ha) hcancelled
  refine ⟨h.keys, h.tasks.restage _ _ _, ?_, hcancelling, ?_, ?_, hreturned⟩
  · exact fun e he => hcomes e (h.ends.failure e he)
  · intro e he
    obtain ⟨hc, hself | he⟩ := hunwinding e he
    · exact ⟨hc, .inl hself⟩
    · exact ⟨hc, hcomes e he⟩
  · exact fun e he => ⟨(hraised e he).1, hcomes e (hraised e he).2⟩

theorem Sound.cancel (h : s.Sound classes r concurrency keys)
    (hstep : s.cancel = some s') : s'.Sound classes r concurrency keys := by
  unfold Join.cancel at hstep
  split at hstep
  case h_4 => cases hstep
  case h_1 hstage hnone =>
    cases Option.some.inj hstep
    refine h.restage (fun _ => rfl) (fun _ => .inl rfl) ?_ ?_ ?_
    all_goals
      intro _ he
      cases hstage.symm.trans he
  case h_2 hstage hsome =>
    cases Option.some.inj hstep
    refine h.restage (fun _ => rfl) (fun _ => .inl rfl) ?_ ?_ ?_
    all_goals
      intro _ he
      cases hstage.symm.trans he
  case h_3 hstage =>
    cases Option.some.inj hstep
    refine h.restage (fun _ => rfl) (fun _ => .inl rfl) (fun e he => ?_) (fun e he => ?_)
      fun data he => ?_
    · cases he
      exact ⟨(h.ends.unwinding _ hstage).1, .inl ⟨rfl, rfl⟩⟩
    · cases he
    · cases he

theorem Sound.resume (h : s.Sound classes r concurrency keys)
    (hstep : s.resume = some s') : s'.Sound classes r concurrency keys := by
  unfold Join.resume at hstep
  split at hstep
  case h_4 => cases hstep
  case h_1 e hstage hsome =>
    cases Option.some.inj hstep
    refine h.restage (fun hc => hc) (fun _ => .inr fun hnone => ?_) (fun e' he => ?_)
      (fun e he => ?_) fun data he => ?_
    · cases hsome.symm.trans hnone
    · cases he
      exact ⟨rfl, .inr (h.ends.failure e hsome)⟩
    · cases he
    · cases he
  case h_2 hstage hnone =>
    split_ifs at hstep with hsettled hcancelled
    · cases Option.some.inj hstep
      refine h.restage (fun hc => hc) (fun _ => .inl hcancelled) (fun e he => ?_) (fun e he => ?_)
        fun data he => ?_
      · cases he
        exact ⟨rfl, .inl ⟨rfl, hcancelled⟩⟩
      · cases he
      · cases he
    · cases Option.some.inj hstep
      refine h.restage (fun hc => hc) h.ends.cancelling (fun e he => ?_) (fun e he => ?_)
        fun data he => ?_
      · cases he
      · cases he
      · cases he
        exact ⟨hsettled, hnone, rfl⟩
  case h_3 e hstage =>
    split_ifs at hstep with hsettled
    cases Option.some.inj hstep
    refine h.restage (fun hc => hc) h.ends.cancelling (fun e he => ?_) (fun e' he => ?_)
      fun data he => ?_
    · cases he
    · cases he
      exact ⟨hsettled, (h.ends.unwinding e hstage).2⟩
    · cases he

theorem Sound.interrupt (h : s.Sound classes r concurrency keys)
    (hstep : s.interrupt = some s') : s'.Sound classes r concurrency keys := by
  unfold Join.interrupt at hstep
  split at hstep
  case h_2 => cases hstep
  case h_1 hstage hsome =>
    split_ifs at hstep with hcancelled
    cases Option.some.inj hstep
    refine h.restage (fun hc => hc) (fun _ => .inl hcancelled) (fun e he => ?_) (fun e he => ?_)
      fun data he => ?_
    · cases he
      exact ⟨rfl, .inl ⟨rfl, hcancelled⟩⟩
    · cases he
    · cases he

theorem sound_step (h : s.Sound classes r concurrency keys) {e : Event V E}
    (hstep : step classes r s e = some s') : s'.Sound classes r concurrency keys := by
  cases e with
  | acquire i => exact h.acquire hstep
  | answer i result => exact h.answer hstep
  | drop i => exact h.drop hstep
  | cancel => exact h.cancel hstep
  | resume => exact h.resume hstep
  | interrupt => exact h.interrupt hstep

theorem sound_run {es : List (Event V E)}
    (hrun : Machine.run (step classes r) (init concurrency keys) es = some s) :
    s.Sound classes r concurrency keys :=
  Machine.run_always (Sound classes r concurrency keys) (fun _ _ _ h hstep => sound_step h hstep)
    hrun ⟨rfl, tasks_init classes r concurrency keys, ends_init classes r concurrency keys⟩

/-! ## The whole call -/

/-- Tasks that all gave a value are in the order of these. -/
theorem eq_map_done {tasks : List (Phase V E)} (h : ∀ t ∈ tasks, ∃ value, t = .done value) :
    tasks = (tasks.filterMap Phase.value).map .done := by
  induction tasks with
  | nil => rfl
  | cons t tasks ih =>
      obtain ⟨value, rfl⟩ := h t List.mem_cons_self
      have hrest := ih fun t ht => h t (List.mem_cons_of_mem _ ht)
      have hvalue : (.done value : Phase V E).value = some value := rfl
      rw [List.filterMap_cons_some hvalue, List.map_cons, ← hrest]

theorem tasks_eq_map_done (h : s.Sound classes r concurrency keys) (hsettled : s.isSettled = true)
    (hnone : s.failure = none) : s.tasks = s.values.map .done := by
  refine eq_map_done fun t ht => ?_
  have ht' := isSettled_iff.mp hsettled t ht
  cases t with
  | waiting => cases ht'
  | calling => cases ht'
  | done value => exact ⟨value, rfl⟩
  | failed e => exact absurd ht (h.tasks.unfailed hnone e)

/-- What `join` returns has each key once, with the branch that the call of this key gave. -/
theorem Sound.returned (h : s.Sound classes r concurrency keys) (hkeys : keys.Nodup)
    {data : List (String × V)} (hdata : s.stage = .returned data) :
    data.map Prod.fst = keys ∧ ∀ i key value, data[i]? = some (key, value) →
      keys[i]? = some key ∧ s.Gave classes r i value := by
  obtain ⟨hsettled, hnone, rfl⟩ := h.ends.returned data hdata
  have htasks := tasks_eq_map_done h hsettled hnone
  have hlength : keys.length ≤ s.values.length := by
    have hlen := h.tasks.length
    rw [htasks, List.length_map, h.keys] at hlen
    exact hlen.ge
  have hfst : (keys.zip s.values).map Prod.fst = keys := List.map_fst_zip hlength
  rw [h.keys, Assoc.ofPairs_of_nodup (hfst.symm ▸ hkeys)]
  refine ⟨hfst, fun i key value hi => ?_⟩
  obtain ⟨hkey, hvalue⟩ := List.getElem?_zip_eq_some.mp hi
  refine ⟨hkey, h.tasks.done i value ?_⟩
  rw [htasks, List.getElem?_map, hvalue]
  rfl

/-- What a caller of `fetch` and `gather` relies on. -/
structure Kept (classes : Classes V T) (r : Registry T) (sections : Option (List String))
    (concurrency : ℤ) (s : Join V E) : Prop where
  selected : r.select sections = .ok s.keys
  limited : (s.tasks.countP Phase.isCalling : ℤ) ≤ concurrency
  once : s.calls.Nodup ∧ ∀ i ∈ s.calls, i < s.keys.length
  ended : s.stage.isOver = true → ∀ t ∈ s.tasks, t.settled = true
  returned : ∀ data, s.stage = .returned data →
    data.map Prod.fst = s.keys ∧ ∀ i key value, data[i]? = some (key, value) →
      s.keys[i]? = some key ∧ s.Gave classes r i value
  raised : ∀ e, s.stage = .raised e → s.Comes classes r e

theorem start_eq_ok {sections : Option (List String)} {concurrency : ℤ} {s : Join V E}
    (h : start r sections concurrency = .ok s) :
    ∃ keys, r.select sections = .ok keys ∧ 0 < concurrency ∧
      s = init concurrency.toNat keys := by
  unfold start at h
  cases hselect : r.select sections with
  | error message =>
      rw [hselect] at h
      cases h
  | ok keys =>
      rw [hselect] at h
      by_cases hlt : concurrency < 1
      · simp only [hlt, ite_true] at h
        cases h
      · simp only [hlt, ite_false] at h
        exact ⟨keys, rfl, by omega, (Except.ok.inj h).symm⟩

/-- In every run of a call, whatever the calls of the collectors do and whenever the caller is
cancelled. -/
theorem collect_kept {sections : Option (List String)} {concurrency : ℤ} {s₀ s : Join V E}
    {es : List (Event V E)} (hstart : start r sections concurrency = .ok s₀)
    (hrun : Machine.run (step classes r) s₀ es = some s) :
    s.Kept classes r sections concurrency := by
  obtain ⟨keys, hselect, hpos, rfl⟩ := start_eq_ok hstart
  have h := sound_run hrun
  have hkeys := Registry.select_nodup hselect
  constructor
  case selected => rw [h.keys, hselect]
  case limited =>
    have hpermits := h.tasks.permits
    omega
  case once =>
    refine ⟨h.tasks.calls, fun i hi => ?_⟩
    obtain ⟨t, ht, -⟩ := h.tasks.called i hi
    rw [← h.tasks.length]
    exact (List.getElem?_eq_some_iff.mp ht).1
  case ended =>
    intro hover
    cases hstage : s.stage with
    | gathering => rw [hstage] at hover; cases hover
    | unwinding e => rw [hstage] at hover; cases hover
    | returned data => exact isSettled_iff.mp (h.ends.returned data hstage).1
    | raised e => exact isSettled_iff.mp (h.ends.raised e hstage).1
  case returned =>
    intro data hdata
    rw [h.keys]
    exact h.returned hkeys hdata
  case raised => exact fun e he => (h.ends.raised e he).2

/-- Values are instances of the models that are no larger. -/
def sampleClasses : Classes ℕ ℕ where
  isinstance value model := model ≤ value
  issubclass model other := other ≤ model
  qualname _ := "Model"
  hints := [("cpu", 1)]

def sampleRegistry : Registry ℕ :=
  ⟨[⟨"cpu", 1, true, true, 1⟩, ⟨"memory", 1, true, true, 2⟩], by decide⟩

/-- One call at a time, of two collectors that both give a branch. -/
theorem gathered_kept : ∃ s : Join ℕ String, s.stage = .returned [("memory", 2), ("cpu", 3)] ∧
    s.Kept sampleClasses sampleRegistry (some ["memory", "cpu", "memory"]) 1 :=
  ⟨_, rfl, @collect_kept ℕ ℕ String sampleClasses sampleRegistry (some ["memory", "cpu", "memory"]) 1
    _ _ [.acquire 0, .answer 0 (.ok 2), .acquire 1, .answer 1 (.ok 3), .resume] rfl rfl⟩

/-! ## The end of a call -/

/-- The most steps that are left. -/
def rank (s : Join V E) : ℕ := (s.tasks.map Phase.rank).sum + s.stage.rank

theorem rank_init (concurrency : ℕ) (keys : List String) :
    (init concurrency keys : Join V E).rank = 2 * keys.length + 2 := by
  have hsum : (keys.map fun _ => 2).sum = keys.length * 2 := by
    rw [List.map_const', List.sum_replicate, nsmul_eq_mul, Nat.cast_id]
  rw [rank, init, List.map_map, Function.comp_def, mul_comm 2]
  exact congrArg (· + 2) hsum

theorem rank_outcome (result : Except (Failure E) V) : (outcome result).rank = 0 := by
  cases result <;> rfl

/-- Every step but a cancellation brings `join` nearer to its end. -/
theorem rank_step {e : Event V E} (hstep : step classes r s e = some s') :
    s'.rank + (if !e.isCancel then 1 else 0) ≤ s.rank := by
  cases e with
  | acquire i =>
      change s.acquire i = some s' at hstep
      unfold Join.acquire at hstep
      split at hstep
      case h_2 => cases hstep
      case h_1 ht =>
        split_ifs at hstep
        cases Option.some.inj hstep
        have hset := Counting.sum_map_set Phase.rank .calling ht
        simp only [Phase.rank] at hset
        simp only [rank, Event.isCancel, Bool.not_false, ite_true]
        omega
  | answer i result =>
      change Join.answer classes r s i result = some s' at hstep
      unfold Join.answer at hstep
      split at hstep
      case h_2 => cases hstep
      case h_1 key ht hkey =>
        cases Option.some.inj hstep
        have hset := Counting.sum_map_set Phase.rank (outcome (checked classes r key result)) ht
        rw [rank_outcome] at hset
        simp only [Phase.rank] at hset
        simp only [rank, settle, Event.isCancel, Bool.not_false, ite_true]
        omega
  | drop i =>
      change s.drop i = some s' at hstep
      unfold Join.drop at hstep
      split at hstep
      case h_2 => cases hstep
      case h_1 ht =>
        split_ifs at hstep
        cases Option.some.inj hstep
        have hset := Counting.sum_map_set Phase.rank (.failed .cancelled) ht
        simp only [Phase.rank] at hset
        simp only [rank, settle, outcome, Event.isCancel, Bool.not_false, ite_true]
        omega
  | cancel =>
      change s.cancel = some s' at hstep
      unfold Join.cancel at hstep
      split at hstep
      case h_4 => cases hstep
      case h_1 => cases Option.some.inj hstep; simp [rank, Event.isCancel]
      case h_2 => cases Option.some.inj hstep; simp [rank, Event.isCancel]
      case h_3 e hstage =>
        cases Option.some.inj hstep
        simp [rank, hstage, Event.isCancel, Stage.rank]
  | resume =>
      change s.resume = some s' at hstep
      unfold Join.resume at hstep
      split at hstep
      case h_4 => cases hstep
      case h_1 e hstage hsome =>
        cases Option.some.inj hstep
        simp [rank, hstage, Event.isCancel, Stage.rank]
      case h_2 hstage hnone =>
        split_ifs at hstep
        · cases Option.some.inj hstep
          simp [rank, hstage, Event.isCancel, Stage.rank]
        · cases Option.some.inj hstep
          simp [rank, hstage, Event.isCancel, Stage.rank]
      case h_3 e hstage =>
        split_ifs at hstep
        cases Option.some.inj hstep
        simp [rank, hstage, Event.isCancel, Stage.rank]
  | interrupt =>
      change s.interrupt = some s' at hstep
      unfold Join.interrupt at hstep
      split at hstep
      case h_2 => cases hstep
      case h_1 hstage hsome =>
        split_ifs at hstep
        cases Option.some.inj hstep
        simp [rank, hstage, Event.isCancel, Stage.rank]

/-- A task that neither calls nor is done waits, and can go on. -/
theorem exists_own_of_waiting (h : s.Sound classes r concurrency keys) (hpos : 0 < concurrency)
    (ht : s.tasks[i]? = some .waiting) (hcalling : ∀ t ∈ s.tasks, t.isCalling = false) :
    ∃ e : Event V E, e.isOwn = true ∧ (step classes r s e).isSome = true := by
  have hzero : s.tasks.countP Phase.isCalling = 0 := by
    rw [List.countP_eq_zero]
    exact fun t ht => by simp [hcalling t ht]
  have hpermits := h.tasks.permits
  cases hcancelling : s.cancelling with
  | true => exact ⟨.drop i, rfl, by simp [step, Join.drop, ht, hcancelling]⟩
  | false =>
      have hfree : 0 < s.permits := by omega
      exact ⟨.acquire i, rfl, by simp [step, Join.acquire, ht, hcancelling, hfree]⟩

theorem exists_waiting (hsettled : s.isSettled ≠ true)
    (hcalling : ∀ t ∈ s.tasks, t.isCalling = false) :
    ∃ i : ℕ, s.tasks[i]? = some (.waiting : Phase V E) := by
  rw [ne_eq, isSettled_iff] at hsettled
  push Not at hsettled
  obtain ⟨t, ht, hne⟩ := hsettled
  have hnot := hcalling t ht
  cases t with
  | waiting => exact List.mem_iff_getElem?.mp ht
  | calling => cases hnot
  | done value => exact absurd rfl hne
  | failed e => exact absurd rfl hne

/-- Where no call is under way, `join` is over or goes on by itself. -/
theorem Sound.progress (h : s.Sound classes r concurrency keys) (hpos : 0 < concurrency)
    (hover : s.stage.isOver = false) (hcalling : ∀ t ∈ s.tasks, t.isCalling = false) :
    ∃ e : Event V E, e.isOwn = true ∧ (step classes r s e).isSome = true := by
  by_cases hsettled : s.isSettled = true
  · refine ⟨.resume, rfl, ?_⟩
    cases hstage : s.stage with
    | gathering =>
        cases hfailure : s.failure with
        | some e => simp [step, Join.resume, hstage, hfailure]
        | none => cases hc : s.cancelled <;> simp [step, Join.resume, hstage, hfailure, hsettled, hc]
    | unwinding e => simp [step, Join.resume, hstage, hsettled]
    | returned data => rw [hstage] at hover; cases hover
    | raised e => rw [hstage] at hover; cases hover
  · obtain ⟨i, hi⟩ := exists_waiting hsettled hcalling
    exact exists_own_of_waiting h hpos hi hcalling

/-- A call ends. It only ever waits for the collectors that it called, and takes no more than two
steps for each key and two of its own, apart from cancellations. -/
theorem collect_ends {sections : Option (List String)} {concurrency : ℤ} {s₀ s : Join V E}
    {es : List (Event V E)} (hstart : start r sections concurrency = .ok s₀)
    (hrun : Machine.run (step classes r) s₀ es = some s) :
    (s.stage.isOver = true ∨ (∃ t ∈ s.tasks, t.isCalling = true) ∨
      ∃ e : Event V E, e.isOwn = true ∧ (step classes r s e).isSome = true) ∧
      es.countP (fun e => !e.isCancel) ≤ 2 * s.keys.length + 2 := by
  obtain ⟨keys, -, hpos, rfl⟩ := start_eq_ok hstart
  have h := sound_run hrun
  constructor
  · cases hover : s.stage.isOver with
    | true => exact .inl rfl
    | false =>
        by_cases hcalling : ∃ t ∈ s.tasks, t.isCalling = true
        · exact .inr (.inl hcalling)
        · push Not at hcalling
          simp only [ne_eq, Bool.not_eq_true] at hcalling
          exact .inr (.inr (h.progress (by omega) hover hcalling))
  · have hle := Machine.run_countP_le rank (fun e => !e.isCancel) (fun _ _ _ => rank_step) hrun
    rw [rank_init] at hle
    rw [h.keys]
    omega

/-- A collector fails while another one is called, which is waited for. -/
theorem unwound_ends : ∃ s : Join ℕ String, s.stage = .unwinding (.raised "gone") ∧
    (s.stage.isOver = true ∨ (∃ t ∈ s.tasks, t.isCalling = true) ∨
      ∃ e : Event ℕ String, e.isOwn = true ∧ (step sampleClasses sampleRegistry s e).isSome = true) ∧
    4 ≤ 2 * s.keys.length + 2 :=
  ⟨_, rfl, @collect_ends ℕ ℕ String sampleClasses sampleRegistry none 2 _ _
    [.acquire 0, .acquire 1, .answer 0 (.error (.raised "gone")), .resume] rfl rfl⟩

end Join

end Facts

end Rmote
