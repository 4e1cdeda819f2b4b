import Mathlib.Data.Set.Basic
import Rmote.Rsync.Selected

/-!
# The first pass

The tasks of the files run in any order and at any time, so the proof follows single paths: each
step of the pass moves a path towards `first`, and a path that has come there, or whose task is
still known to the coordinator, counts as settled. A pass that returns has settled every selected
path and has no task left.
-/

namespace Rmote

namespace Rsync

open Hoare

variable (j : Job) (dst : Tree)

/-- What holds of a task that the coordinator started. -/
structure Task.Ok (t : Tree) (task : Task) : Prop where
  source : ∃ content, j.src.get task.path = some (.file content task.mode)
  selected : Selected j dst task.path
  kind : SameKind j dst task.path
  present : task.present = some task.mode → HasMode j t task.path
  finished : task.progress = .finished → t.get task.path = first j dst task.path

/-- The paths of `S` are settled, and the files of `M` have their mode. -/
structure Good (S M : Set Path) (s : Coordinator) : Prop where
  tree : ∀ p, Partial j dst p (s.dst.get p)
  tasks : ∀ task ∈ s.active, Task.Ok j dst s.dst task
  settled : ∀ p ∈ S, s.dst.get p = first j dst p ∨ ∃ task ∈ s.active, task.path = p
  modes : ∀ p ∈ M, HasMode j s.dst p

/-- Nothing is known to be settled. -/
def Safe (s : Coordinator) : Prop := Good j dst ∅ ∅ s

/-- The code leaves every settled path settled. -/
def Keeps {α : Type} (m : Run α) : Prop :=
  ∀ S M, Triple (Good j dst S M) m (fun _ => Good j dst S M) (Safe j dst)

variable {j dst} {S M S' M' : Set Path} {s s' : Coordinator} {t : Tree} {task : Task} {p : Path}
  {α β : Type}

theorem good_new : Good j dst ∅ ∅ (.new dst) :=
  ⟨fun _ => .before, nofun, nofun, nofun⟩

theorem Good.mono (h : Good j dst S M s) (hS : S' ⊆ S) (hM : M' ⊆ M) : Good j dst S' M' s :=
  ⟨h.tree, h.tasks, fun p hp => h.settled p (hS hp), fun p hp => h.modes p (hM hp)⟩

theorem Good.safe (h : Good j dst S M s) : Safe j dst s :=
  h.mono (Set.empty_subset S) (Set.empty_subset M)

theorem Good.settle (h : Good j dst S M s) (hp : s.dst.get p = first j dst p) :
    Good j dst (S ∪ {p}) M s := by
  refine ⟨h.tree, h.tasks, fun q hq => ?_, h.modes⟩
  rcases hq with hq | rfl
  · exact h.settled q hq
  · exact .inl hp

/-- Code that neither writes to the tree nor touches a task. -/
theorem Good.of_eq (h : Good j dst S M s) (hdst : s'.dst = s.dst) (hactive : s'.active = s.active) :
    Good j dst S M s' := by
  constructor
  · rw [hdst]
    exact h.tree
  · rw [hdst, hactive]
    exact h.tasks
  · rw [hdst, hactive]
    exact h.settled
  · rw [hdst]
    exact h.modes

theorem Advance.hasMode {t' : Tree} (h : Advance j dst t t') (hmode : HasMode j t p) :
    HasMode j t' p := by
  rcases h p with hsame | ⟨-, -, hkeep⟩
  · intro content mode hsrc
    rw [hsame]
    exact hmode content mode hsrc
  · exact hkeep hmode

theorem Advance.first {t' : Tree} (h : Advance j dst t t')
    (hp : t.get p = Rsync.first j dst p) : t'.get p = Rsync.first j dst p := by
  rcases h p with hsame | ⟨-, hkeep, -⟩
  · rw [hsame, hp]
  · exact hkeep hp

/-- A step moves the tree. -/
theorem Good.advance (h : Good j dst S M s) (hadvance : Advance j dst s.dst t) :
    Good j dst S M { s with dst := t } := by
  refine ⟨fun p => ?_, fun task htask => ?_, fun p hp => ?_, fun p hp => ?_⟩
  · rcases hadvance p with hsame | ⟨hhalfway, -, -⟩
    · change Partial j dst p (t.get p)
      rw [hsame]
      exact h.tree p
    · exact hhalfway
  · have hok := h.tasks task htask
    exact ⟨hok.source, hok.selected, hok.kind, fun hp => hadvance.hasMode (hok.present hp),
      fun hp => hadvance.first (hok.finished hp)⟩
  · exact (h.settled p hp).imp_left hadvance.first
  · exact hadvance.hasMode (h.modes p hp)

theorem Keeps.bind {m : Run α} {f : α → Run β} (h : Keeps j dst m) (hf : ∀ a, Keeps j dst (f a)) :
    Keeps j dst (m >>= f) :=
  fun S M => (h S M).bind fun a => hf a S M

theorem keeps_pure (a : α) : Keeps j dst (pure a : Run α) := fun _ _ => triple_pure fun _ h => h

theorem keeps_throw (e : Failure) : Keeps j dst (throw e : Run α) :=
  fun _ _ => triple_throw fun _ h => h.safe

/-- A call that is refused changes nothing but the time. -/
theorem triple_attempt {P E : Coordinator → Prop}
    (h : ∀ s, P s → P { s with clock := s.clock + 1 }) (hE : ∀ s, P s → E s) :
    Triple P (attempt j) (fun _ => P) E := by
  intro s hs
  rw [run_attempt]
  cases j.env.fails s.clock with
  | some text => exact hE _ (h s hs)
  | none => exact h s hs

theorem keeps_attempt : Keeps j dst (attempt j) :=
  fun _ _ => triple_attempt (fun _ h => h.of_eq rfl rfl) fun _ h => h.safe

theorem keeps_record (f : Result → Result) : Keeps j dst (record f) :=
  fun _ _ => triple_modify fun _ h => h.of_eq rfl rfl

theorem triple_onTarget {m : Call α} {P E : Coordinator → Prop} {Q : α → Coordinator → Prop}
    (h : ∀ s, P s → Triple (fun t => t = s.dst) m (fun a t => Q a { s with dst := t })
      (fun t => E { s with dst := t })) : Triple P (onTarget m) Q E := by
  intro s hs
  have hm := h s hs s.dst rfl
  rw [run_onTarget]
  cases hrun : m.run s.dst with
  | ok a t =>
      rw [hrun] at hm
      exact hm
  | error e t =>
      rw [hrun] at hm
      exact hm

theorem triple_onSource {m : Call α} {P E : Coordinator → Prop} {Q : α → Coordinator → Prop}
    (h : ∀ s, P s → Triple (fun t => t = j.src) m (fun a _ => Q a s) (fun _ => E s)) :
    Triple P (onSource j m) Q E := by
  intro s hs
  have hm := h s hs j.src rfl
  rw [run_onSource]
  cases hrun : m.run j.src with
  | ok a t =>
      rw [hrun] at hm
      exact hm
  | error e t =>
      rw [hrun] at hm
      exact hm

section Tasks

variable {content : Bytes} {mode : ℕ}

/-- Where a file is during the first pass: the content is in its place or the old mode is. -/
theorem Partial.file {x : Option Node} (h : Partial j dst p x) {old : Bytes} {m : ℕ}
    (hx : x = some (.file old m)) (hselected : Selected j dst p)
    (hsrc : j.src.get p = some (.file content mode)) :
    x = first j dst p ∧ old = content ∨ m = oldMode 0o600 (dst.get p) := by
  cases h with
  | before =>
      right
      rw [hx]
      rfl
  | after _ _ =>
      left
      rw [first_of_selected hselected hsrc] at hx
      exact ⟨rfl, (Node.file.inj (Option.some.inj hx)).1.symm⟩
  | between _ _ _ _ _ =>
      right
      exact (Node.file.inj (Option.some.inj hx)).2.symm

/-- The content of a file is in its place, with the old mode or with the new one. -/
def HasContent (j : Job) (dst t : Tree) (p : Path) (content : Bytes) : Prop :=
  t.get p = first j dst p ∨ t.get p = some (.file content (oldMode 0o600 (dst.get p)))

/-- What `FileSync` does to a file. -/
theorem triple_syncFile_advance (ht : Partial j dst p (t.get p)) (hselected : Selected j dst p)
    (hkind : SameKind j dst p) (hsrc : j.src.get p = some (.file content mode)) :
    Triple (fun u => u = t) (syncFile p content)
      (fun _ u => Advance j dst t u ∧ HasContent j dst u p content) (fun u => u = t) := by
  refine (triple_syncFile t p content).mono (fun _ h => h) ?_ fun _ h => h
  have hfirst := first_of_selected hselected hsrc
  rintro changed u (⟨-, rfl, m, hm⟩ | ⟨-, hnone, hput⟩ | ⟨-, old, m, hm, hput⟩)
  · refine ⟨.refl u, ?_⟩
    rcases ht.file hm hselected hsrc with ⟨hplace, -⟩ | hold
    · exact .inl hplace
    · exact .inr (hold ▸ hm)
  · have hdst := ht.eq_none hnone
    have hbetween := Partial.between hselected hkind content mode hsrc
    rw [hdst] at hbetween
    refine ⟨advance_put hput hbetween ?_ ?_, .inr ?_⟩
    · rw [hnone, hfirst]
      nofun
    · intro hmode
      obtain ⟨content', hmode⟩ := hmode content mode hsrc
      rw [hnone] at hmode
      cases hmode
    · rw [Tree.get_put hput, if_pos rfl, hdst]
      rfl
  · have hmoved : HasMode j t p → HasMode j u p := by
      intro hmode c m' hc
      obtain ⟨content', hmode⟩ := hmode c m' hc
      rw [hm] at hmode
      cases hmode
      exact ⟨content, by rw [Tree.get_put hput, if_pos rfl]⟩
    rcases ht.file hm hselected hsrc with ⟨hplace, rfl⟩ | hold
    · rw [hm] at hplace
      refine ⟨advance_put hput ?_ (fun _ => hplace) hmoved, .inl ?_⟩
      · rw [hplace]
        exact .after hselected hkind
      · rw [Tree.get_put hput, if_pos rfl, hplace]
    · subst hold
      refine ⟨advance_put hput (.between hselected hkind content mode hsrc) ?_ hmoved, .inr ?_⟩
      · intro hplace
        rw [hm, hfirst] at hplace
        rw [hfirst]
        obtain ⟨-, hmode⟩ := Node.file.inj (Option.some.inj hplace)
        exact congrArg (fun m => some (Node.file content m)) hmode
      · rw [Tree.get_put hput, if_pos rfl]

/-- What `chmod` does to a file whose content is there. -/
theorem triple_chmod_advance (ht : HasContent j dst t p content) (hselected : Selected j dst p)
    (hkind : SameKind j dst p) (hsrc : j.src.get p = some (.file content mode))
    (hpreserve : j.opts.preserveMode = true) :
    Triple (fun u => u = t) (chmod p mode)
      (fun _ u => Advance j dst t u ∧ u.get p = first j dst p) (fun u => u = t) := by
  refine (triple_chmod t p mode).mono (fun _ h => h) ?_ fun _ h => h
  have hfirst : first j dst p = some (.file content mode) := by
    rw [first_of_selected hselected hsrc, placed, if_pos hpreserve]
  obtain ⟨m, hm⟩ : ∃ m, t.get p = some (.file content m) := by
    rcases ht with ht | ht
    · exact ⟨mode, ht.trans hfirst⟩
    · exact ⟨_, ht⟩
  rintro changed u ⟨node, hnode, -, ⟨-, rfl, hmode⟩ | ⟨-, hput⟩⟩
  · rw [hm] at hnode
    cases hnode
    cases hmode
    exact ⟨.refl u, hm.trans hfirst.symm⟩
  · rw [hm] at hnode
    cases hnode
    have hu : u.get p = first j dst p := by
      rw [Tree.get_put hput, if_pos rfl, hfirst]
      rfl
    refine ⟨advance_put hput ?_ ?_ ?_, hu⟩
    · rw [Node.chmod, ← hfirst]
      exact .after hselected hkind
    · intro _
      rw [hfirst]
      rfl
    · intro _ c m' hc
      rw [hsrc] at hc
      cases hc
      exact ⟨content, by rw [hu, hfirst]⟩

theorem HasContent.of_hasMode (ht : HasContent j dst t p content) (hselected : Selected j dst p)
    (hsrc : j.src.get p = some (.file content mode)) (hpreserve : j.opts.preserveMode = true)
    (hmode : HasMode j t p) : t.get p = first j dst p := by
  rcases ht with ht | ht
  · exact ht
  · obtain ⟨content', hmode⟩ := hmode content mode hsrc
    rw [ht] at hmode
    obtain ⟨-, hold⟩ := Node.file.inj (Option.some.inj hmode)
    rw [first_of_selected hselected hsrc, placed, if_pos hpreserve, ht, hold]

theorem HasContent.of_not_preserve (ht : HasContent j dst t p content)
    (hselected : Selected j dst p) (hsrc : j.src.get p = some (.file content mode))
    (hpreserve : ¬ j.opts.preserveMode = true) : t.get p = first j dst p := by
  rcases ht with ht | ht
  · exact ht
  · rw [first_of_selected hselected hsrc, placed, if_neg hpreserve, ht]

/-- The content of the file is there, and a mode that the scan found to be right still is. -/
structure Copied (S M : Set Path) (j : Job) (dst : Tree) (task : Task) (content : Bytes)
    (s : Coordinator) : Prop where
  good : Good j dst S M s
  content : HasContent j dst s.dst task.path content
  present : task.present = some task.mode → HasMode j s.dst task.path

theorem Copied.of_eq (h : Copied S M j dst task content s) (hdst : s'.dst = s.dst)
    (hactive : s'.active = s.active) : Copied S M j dst task content s' := by
  refine ⟨h.good.of_eq hdst hactive, ?_, ?_⟩
  · rw [hdst]
    exact h.content
  · rw [hdst]
    exact h.present

/-- The mode of a file is put in its place. -/
theorem triple_metadata_file (hselected : Selected j dst task.path)
    (hkind : SameKind j dst task.path)
    (hsrc : j.src.get task.path = some (.file content task.mode)) :
    Triple (Copied S M j dst task content) (metadata j task.path task.mode task.present)
      (fun _ s => Good j dst S M s ∧ s.dst.get task.path = first j dst task.path)
      (Good j dst S M) := by
  unfold metadata
  split_ifs with hset
  · refine (triple_attempt (fun _ h => h.of_eq rfl rfl) fun _ h => h.good).bind fun _ => ?_
    refine Triple.bind (R := fun _ s => Good j dst S M s ∧
      s.dst.get task.path = first j dst task.path) (triple_onTarget fun s hs => ?_) fun _ => ?_
    · refine (triple_chmod_advance hs.content hselected hkind hsrc hset.1).mono (fun _ h => h)
        ?_ ?_
      · rintro _ t ⟨hadvance, hfirst⟩
        exact ⟨hs.good.advance hadvance, hfirst⟩
      · rintro t rfl
        exact hs.good
    · exact triple_modify fun s hs => ⟨hs.1.of_eq rfl rfl, hs.2⟩
  · refine triple_pure fun s hs => ⟨hs.good, ?_⟩
    by_cases hpreserve : j.opts.preserveMode = true
    · refine hs.content.of_hasMode hselected hsrc hpreserve (hs.present ?_)
      by_contra hne
      exact hset ⟨hpreserve, fun heq => hne heq.symm⟩
    · exact hs.content.of_not_preserve hselected hsrc hpreserve

theorem run_readFile {t : Tree} (h : t.get p = some (.file content mode)) :
    (readFile p).run t = .ok content t := by
  simp [readFile, h]

/-- The body of a task. -/
theorem triple_file (hselected : Selected j dst task.path) (hkind : SameKind j dst task.path)
    (hsrc : j.src.get task.path = some (.file content task.mode)) :
    Triple (fun s => Good j dst S M s ∧
        (task.present = some task.mode → HasMode j s.dst task.path)) (file j task)
      (fun _ s => Good j dst S M s ∧ s.dst.get task.path = first j dst task.path)
      (Good j dst S M) := by
  refine (triple_attempt (fun _ h => ⟨h.1.of_eq rfl rfl, h.2⟩) fun _ h => h.1).bind fun _ => ?_
  refine Triple.bind (R := fun c s => c = content ∧ Good j dst S M s ∧
    (task.present = some task.mode → HasMode j s.dst task.path)) (triple_onSource ?_) fun c => ?_
  · intro s hs t ht
    rw [ht, run_readFile hsrc]
    exact ⟨rfl, hs⟩
  · refine triple_get_bind fun s hs => ?_
    obtain ⟨rfl, hgood, hpresent⟩ := hs
    refine Triple.bind (R := fun _ => Copied S M j dst task c) (triple_onTarget ?_) fun _ => ?_
    · rintro u rfl
      refine (triple_syncFile_advance (hgood.tree _) hselected hkind hsrc).mono (fun _ h => h) ?_ ?_
      · rintro _ t ⟨hadvance, hcontent⟩
        exact ⟨hgood.advance hadvance, hcontent, fun hp => hadvance.hasMode (hpresent hp)⟩
      · rintro t rfl
        exact hgood
    · refine Triple.bind (R := fun _ => Copied S M j dst task c)
        (triple_modify fun s hs => hs.of_eq rfl rfl) fun _ => ?_
      exact triple_metadata_file hselected hkind hsrc

/-- A task touches no task. -/
theorem active_file (j : Job) (task : Task) (active : List Task) :
    Triple (fun s => s.active = active) (file j task) (fun _ s => s.active = active)
      (fun s => s.active = active) := by
  have hattempt := triple_attempt (j := j) (P := fun s => s.active = active)
    (E := fun s => s.active = active) (fun _ h => h) fun _ h => h
  have htarget : ∀ (m : Call Bool), Triple (fun s : Coordinator => s.active = active) (onTarget m)
      (fun _ s => s.active = active) (fun s => s.active = active) := by
    intro m
    refine triple_onTarget fun s hs t _ => ?_
    split <;> exact hs
  have hrecord : ∀ f, Triple (fun s : Coordinator => s.active = active) (record f)
      (fun _ s => s.active = active) (fun s => s.active = active) :=
    fun f => triple_modify fun _ h => h
  refine hattempt.bind fun _ => ?_
  refine Triple.bind (R := fun _ s => s.active = active) (triple_onSource fun s hs t _ => ?_)
    fun c => ?_
  · split <;> exact hs
  · refine triple_get_bind fun s hs => ?_
    refine Triple.mono (P := fun s => s.active = active) ?_ (fun u hu => hu ▸ hs) (fun _ _ h => h)
      fun _ h => h
    refine (htarget _).bind fun _ => (hrecord _).bind fun _ => ?_
    unfold metadata
    split_ifs
    · exact hattempt.bind fun _ => (htarget _).bind fun _ => hrecord _
    · exact triple_pure fun _ h => h

/-- A task takes the place of another one with its path. -/
theorem Good.set (h : Good j dst S M s) {i : ℕ} (hi : s.active[i]? = some task) {new : Task}
    (hpath : new.path = task.path) (hnew : Task.Ok j dst s.dst new) :
    Good j dst S M { s with active := s.active.set i new } := by
  refine ⟨h.tree, fun task' htask' => ?_, fun p hp => ?_, h.modes⟩
  · rcases List.mem_or_eq_of_mem_set htask' with htask' | rfl
    · exact h.tasks task' htask'
    · exact hnew
  · refine (h.settled p hp).imp_right ?_
    rintro ⟨task', htask', rfl⟩
    obtain ⟨k, hk⟩ := List.mem_iff_getElem?.mp htask'
    by_cases hki : k = i
    · rw [hki, hi] at hk
      obtain rfl := Option.some.inj hk
      refine ⟨new, List.mem_iff_getElem?.mpr ⟨i, ?_⟩, hpath⟩
      have hlength := (List.getElem?_eq_some_iff.mp hi).1
      rw [List.getElem?_set_self hlength]
    · refine ⟨task', List.mem_iff_getElem?.mpr ⟨k, ?_⟩, rfl⟩
      rw [List.getElem?_set_ne (Ne.symm hki), hk]

/-- A task runs to its end, with success or without, and the others stay as they are. -/
theorem triple_runTask (i : ℕ) (active : List Task) :
    Triple (fun s => Good j dst S M s ∧ s.active = active) (runTask j i)
      (fun _ s => Good j dst S M s ∧ s.active.length = active.length ∧
        (∀ k, k ≠ i → s.active[k]? = active[k]?) ∧
        ∀ task, s.active[i]? = some task → task.progress ≠ .running) (fun _ => False) := by
  rintro s ⟨hs, hactive⟩
  rw [run_runTask]
  cases hi : s.active[i]? with
  | none =>
      refine ⟨hs, by rw [hactive], fun k _ => by rw [hactive], fun task htask => ?_⟩
      rw [hi] at htask
      cases htask
  | some task =>
      dsimp only
      have hok := hs.tasks task (List.mem_of_getElem? hi)
      obtain ⟨content, hsrc⟩ := hok.source
      have hlength := (List.getElem?_eq_some_iff.mp hi).1
      have hset : ∀ {u : Coordinator} {new : Task}, Good j dst S M u → u.active = s.active →
          Task.Ok j dst u.dst new → new.path = task.path → new.progress ≠ .running →
          Good j dst S M { u with active := u.active.set i new } ∧
            (u.active.set i new).length = active.length ∧
            (∀ k, k ≠ i → (u.active.set i new)[k]? = active[k]?) ∧
            ∀ task, (u.active.set i new)[i]? = some task → task.progress ≠ .running := by
        intro u new hu hsame hnew hpath hprogress
        refine ⟨hu.set (by rw [hsame, hi]) hpath hnew, ?_, fun k hk => ?_, fun task' htask' => ?_⟩
        · rw [List.length_set, hsame, hactive]
        · rw [List.getElem?_set_ne (Ne.symm hk), hsame, hactive]
        · rw [List.getElem?_set_self (by rw [hsame]; exact hlength)] at htask'
          cases htask'
          exact hprogress
      split_ifs with hrunning
      · have hfile := triple_file hok.selected hok.kind hsrc s ⟨hs, hok.present⟩
        have hsame := active_file j task s.active s rfl
        cases hrun : (file j task).run s with
        | ok a u =>
            rw [hrun] at hfile hsame
            have hok' := hfile.1.tasks task (hsame ▸ List.mem_of_getElem? hi)
            exact hset hfile.1 hsame ⟨hok'.source, hok'.selected, hok'.kind, hok'.present,
              fun _ => hfile.2⟩ rfl nofun
        | error e u =>
            rw [hrun] at hfile hsame
            have hok' := hfile.tasks task (hsame ▸ List.mem_of_getElem? hi)
            exact hset hfile hsame ⟨hok'.source, hok'.selected, hok'.kind, hok'.present, nofun⟩ rfl
              nofun
      · refine ⟨hs, by rw [hactive], fun k _ => by rw [hactive], fun task' htask' => ?_⟩
        rw [hi] at htask'
        cases htask'
        exact hrunning

theorem keeps_runTask (i : ℕ) : Keeps j dst (runTask j i) := by
  intro S M
  refine triple_of_forall fun s hs => ?_
  exact ((triple_runTask i s.active).restrict ⟨hs, rfl⟩).mono (fun _ h => h) (fun _ _ h => h.1)
    fun _ h => h.elim

theorem keeps_forM {γ : Type} {l : List γ} {f : γ → Run Unit} (h : ∀ a, Keeps j dst (f a)) :
    Keeps j dst (l.forM f) :=
  fun S M => triple_forM (I := fun _ => Good j dst S M) fun _ a _ _ => h a S M

theorem keeps_get_bind {f : Coordinator → Run α} (h : ∀ s, Keeps j dst (f s)) :
    Keeps j dst (get >>= f) :=
  fun S M => triple_get_bind fun s hs => (h s S M).restrict hs

theorem keeps_runReady : Keeps j dst (runReady j) :=
  keeps_get_bind fun _ => keeps_forM keeps_runTask

/-- No task failed. -/
theorem not_failed_of_firstFailure {tasks : List Task} (h : firstFailure tasks = none)
    (htask : task ∈ tasks) : task.progress = .running ∨ task.progress = .finished := by
  induction tasks with
  | nil => cases htask
  | cons task' tasks ih =>
      rw [firstFailure] at h
      split at h
      · cases h
      · rename_i hprogress
        rcases List.mem_cons.mp htask with rfl | htask
        · cases hp : task.progress with
          | running => exact .inl rfl
          | finished => exact .inr rfl
          | failed failure => exact absurd hp (hprogress failure)
        · exact ih h htask

/-- The coordinator forgets tasks. -/
theorem Good.forget (h : Good j dst S M s) {active : List Task}
    (hactive : ∀ task ∈ active, task ∈ s.active) : Safe j dst { s with active := active } :=
  ⟨h.tree, fun task htask => h.tasks task (hactive task htask), nofun, nofun⟩

/-- What came to its end is in its place. -/
theorem Good.collect (h : Good j dst S M s) (hfailure : firstFailure s.active = none) :
    Good j dst S M { s with active := s.active.filter fun task => task.progress = .running } := by
  refine ⟨h.tree, fun task htask => h.tasks task (List.mem_filter.mp htask).1, fun p hp => ?_,
    h.modes⟩
  rcases h.settled p hp with hfirst | ⟨task, htask, rfl⟩
  · exact .inl hfirst
  · rcases not_failed_of_firstFailure hfailure htask with hrunning | hfinished
    · exact .inr ⟨task, List.mem_filter.mpr ⟨htask, by simpa using hrunning⟩, rfl⟩
    · exact .inl ((h.tasks task htask).finished hfinished)

theorem keeps_collect : Keeps j dst collect := by
  intro S M s hs
  rw [run_collect]
  cases hfailure : firstFailure s.active with
  | some failure => exact hs.forget fun _ htask => (List.mem_filter.mp htask).1
  | none => exact hs.collect hfailure

theorem keeps_wait (all : Bool) : Keeps j dst (wait j all) := by
  refine keeps_get_bind fun s => ?_
  dsimp only
  split_ifs
  · exact keeps_forM keeps_runTask
  · exact keeps_runTask 0
  · exact keeps_pure ()

theorem keeps_reap (all : Bool) : Keeps j dst (reap j all) :=
  keeps_runReady.bind fun _ => (keeps_wait all).bind fun _ => keeps_collect

theorem keeps_makeRoom (rounds : ℕ) : Keeps j dst (makeRoom j rounds) := by
  induction rounds with
  | zero => exact keeps_pure ()
  | succ rounds ih =>
      refine keeps_get_bind fun s => ?_
      split_ifs
      · exact keeps_pure ()
      · exact (keeps_reap false).bind fun _ => ih

/-- Once all tasks have come to their end, the settled paths are in their place. -/
theorem triple_reap_all :
    Triple (Good j dst S M) (reap j true)
      (fun _ s => Good j dst S M s ∧ s.active = [])
      (Safe j dst) := by
  refine (keeps_runReady S M).bind fun _ => ?_
  refine Triple.bind (R := fun _ u => Good j dst S M u ∧
    ∀ task ∈ u.active, task.progress ≠ .running) (triple_get_bind fun s hs => ?_) fun _ => ?_
  · dsimp only
    rw [if_pos rfl]
    have hloop := triple_forM (l := List.range s.active.length) (f := runTask j) (E := Safe j dst)
      (I := fun done u => Good j dst S M u ∧ u.active.length = s.active.length ∧
        ∀ i ∈ done, ∀ task, u.active[i]? = some task → task.progress ≠ .running) ?_
    · refine (hloop.restrict ⟨hs, rfl, nofun⟩).mono (fun _ h => h) (fun _ u hu => ⟨hu.1, ?_⟩)
        fun _ h => h
      intro task htask
      obtain ⟨i, hi⟩ := List.mem_iff_getElem?.mp htask
      have hlength := (List.getElem?_eq_some_iff.mp hi).1
      exact hu.2.2 i (List.mem_range.mpr (hu.2.1 ▸ hlength)) task hi
    · intro done i rest _
      refine triple_of_forall fun u hu => ?_
      refine ((triple_runTask i u.active).restrict ⟨hu.1, rfl⟩).mono (fun _ h => h) ?_
        fun _ h => h.elim
      rintro _ v ⟨hv, hlength, hothers, hdone⟩
      refine ⟨hv, hlength.trans hu.2.1, fun k hk task htask => ?_⟩
      by_cases hki : k = i
      · exact hdone task (hki ▸ htask)
      · refine hu.2.2 k ?_ task (hothers k hki ▸ htask)
        rcases List.mem_append.mp hk with hk | hk
        · exact hk
        · exact absurd (List.mem_singleton.mp hk) hki
  · rintro u ⟨hu, hdone⟩
    rw [run_collect]
    cases hfailure : firstFailure u.active with
    | some failure => exact hu.forget fun _ htask => (List.mem_filter.mp htask).1
    | none =>
        have hempty : (u.active.filter fun task => task.progress = .running) = [] := by
          rw [List.filter_eq_nil_iff]
          intro task htask
          simpa using hdone task htask
        exact ⟨hu.collect hfailure, hempty⟩

end Tasks

theorem triple_call {m : Call α} {Q : α → Coordinator → Prop}
    (h : ∀ s, Good j dst S M s → Triple (fun t => t = s.dst) m
      (fun a t => Q a { s with dst := t }) (fun t => Safe j dst { s with dst := t })) :
    Triple (Good j dst S M) (call j m) Q (Safe j dst) :=
  (keeps_runReady S M).bind fun _ => (keeps_attempt S M).bind fun _ => triple_onTarget h

/-- The scan of a directory of the source. -/
theorem triple_scan_source (p : Path) :
    Triple (Good j dst S M) (callSource j (scan p))
      (fun entries s => entries = entriesOf j.src p ∧ Good j dst S M s) (Safe j dst) := by
  refine (keeps_runReady S M).bind fun _ => (keeps_attempt S M).bind fun _ =>
    triple_onSource fun s hs => ?_
  exact (triple_scan j.src p).mono (fun _ h => h) (fun _ _ h => ⟨h.2.1, hs⟩) fun _ _ => hs.safe

theorem triple_mkdir_advance {mode : ℕ} (ht : Partial j dst p (t.get p))
    (hselected : Selected j dst p) (hkind : SameKind j dst p)
    (hsrc : j.src.get p = some (.directory mode)) :
    Triple (fun u => u = t) (mkdir p)
      (fun _ u => Advance j dst t u ∧ u.get p = first j dst p) (fun u => u = t) := by
  refine (triple_mkdir t p).mono (fun _ h => h) ?_ fun _ h => h
  have hfirst := first_of_selected hselected hsrc
  rintro changed u (⟨-, rfl, m, hm⟩ | ⟨-, hnone, hput⟩)
  · refine ⟨.refl u, ?_⟩
    rw [hm] at ht ⊢
    generalize hx : some (Node.directory m) = x at ht ⊢
    cases ht with
    | before => rw [hfirst, ← hx]; rfl
    | after _ _ => rfl
    | between _ _ _ _ _ => cases hx
  · have hdst := ht.eq_none hnone
    have hplace : some (.directory 0o700) = first j dst p := by
      rw [hfirst, hdst]
      rfl
    have hu : u.get p = first j dst p := by rw [Tree.get_put hput, if_pos rfl, hplace]
    refine ⟨advance_put hput ?_ (fun _ => hplace) ?_, hu⟩
    · rw [hplace]
      exact .after hselected hkind
    · intro _ content m hc
      rw [hsrc] at hc
      cases hc

theorem triple_link_advance {target : String} (hselected : Selected j dst p)
    (hkind : SameKind j dst p) (hsrc : j.src.get p = some (.symlink target)) :
    Triple (fun u => u = t) (link p target)
      (fun _ u => Advance j dst t u ∧ u.get p = first j dst p) (fun u => u = t) := by
  refine (triple_link t p target).mono (fun _ h => h) ?_ fun _ h => h
  have hfirst : first j dst p = some (.symlink target) := first_of_selected hselected hsrc
  rintro changed u (⟨-, rfl, hlink⟩ | ⟨-, -, hput⟩)
  · exact ⟨.refl u, hlink.trans hfirst.symm⟩
  · have hu : u.get p = first j dst p := by rw [Tree.get_put hput, if_pos rfl, hfirst]
    refine ⟨advance_put hput ?_ (fun _ => hfirst.symm) ?_, hu⟩
    · rw [← hfirst]
      exact .after hselected hkind
    · intro _ content m hc
      rw [hsrc] at hc
      cases hc

theorem triple_create {mode : ℕ} (hselected : Selected j dst p) (hkind : SameKind j dst p)
    (hsrc : j.src.get p = some (.directory mode)) :
    Triple (Good j dst S M) (create j p) (fun _ => Good j dst (S ∪ {p}) M) (Safe j dst) := by
  refine Triple.bind (R := fun _ => Good j dst (S ∪ {p}) M) (triple_call fun s hs => ?_)
    fun _ => keeps_record _ _ _
  refine (triple_mkdir_advance (hs.tree p) hselected hkind hsrc).mono (fun _ h => h) ?_ ?_
  · rintro _ u ⟨hadvance, hfirst⟩
    exact (hs.advance hadvance).settle hfirst
  · rintro u rfl
    exact hs.safe

/-- The files of a directory whose mode the scan found to be right. -/
def moded (p : Path) (entries compared : List (Name × Entry)) : Set Path :=
  { q | ∃ item ∈ entries, q = item.1 :: p ∧ item.2.kind = .file ∧ Agrees compared item ∧
    (compared.lookup item.1).map Entry.mode = some item.2.mode }

/-- The scan of a directory of the destination. -/
theorem triple_scan_target (hselected : Selected j dst p) :
    Triple (Good j dst S M) (call j (scan p))
      (fun existing s =>
        Level j dst p (transferable j p (entriesOf j.src p) existing)
          (comparable j p (entriesOf j.src p) existing) ∧
        Good j dst S (M ∪ moded p (transferable j p (entriesOf j.src p) existing)
          (comparable j p (entriesOf j.src p) existing)) s) (Safe j dst) := by
  refine triple_call fun s hs => (triple_scan s.dst p).mono (fun _ h => h) ?_ ?_
  · rintro existing u ⟨rfl, rfl, -⟩
    have hlevel := level_of_partial (fun n => hs.tree (n :: p)) hselected
    refine ⟨hlevel, hs.tree, hs.tasks, hs.settled, fun q hq => ?_⟩
    rcases hq with hq | ⟨item, hitem, rfl, hfile, hagrees, hmode⟩
    · exact hs.modes q hq
    · obtain ⟨-, node, hnode, hentry⟩ := hlevel.selected item hitem
      obtain ⟨entry, hlookup, hmode⟩ := Option.map_eq_some_iff.mp hmode
      obtain ⟨old, hold, rfl⟩ := mem_of_comparable (mem_of_lookup hlookup)
      have holdkind := (hagrees.2 _ hlookup).trans hfile
      intro content mode hsrc
      rw [hnode] at hsrc
      cases hsrc
      cases old with
      | file content' mode' =>
          rw [← hentry] at hmode
          cases hmode
          exact ⟨content', hold⟩
      | directory mode' => cases holdkind
      | symlink target => cases holdkind
      | special mode' => cases holdkind
  · rintro u rfl
    exact hs.safe

variable {entries compared : List (Name × Entry)} {item : Name × Entry}

/-- The checks pass when nothing is special and no kinds conflict. -/
theorem triple_checkEntry {P E : Coordinator → Prop} (hE : ∀ s, P s → E s) :
    Triple P (checkEntry p compared item) (fun _ s => Agrees compared item ∧ P s) E := by
  unfold checkEntry
  split_ifs with hspecial hconflict
  · exact triple_throw hE
  · exact triple_throw hE
  · refine triple_pure fun s hs => ⟨⟨hspecial, fun entry hlookup => ?_⟩, hs⟩
    by_contra hne
    rw [hlookup] at hconflict
    exact hconflict (by simpa using hne)

theorem triple_checkEntries {P E : Coordinator → Prop} (hE : ∀ s, P s → E s) :
    Triple P (entries.forM (checkEntry p compared))
      (fun _ s => (∀ item ∈ entries, Agrees compared item) ∧ P s) E := by
  have hloop := triple_forM (l := entries) (f := checkEntry p compared) (E := E)
    (I := fun done s => (∀ item ∈ done, Agrees compared item) ∧ P s) ?_
  · exact hloop.mono (fun s hs => ⟨nofun, hs⟩) (fun _ _ h => h) fun _ h => h
  · intro done item rest _
    refine (triple_checkEntry fun s hs => hE s hs.2).mono (fun _ h => h) ?_ fun _ h => h
    rintro _ s ⟨hitem, hdone, hs⟩
    refine ⟨fun item' hitem' => ?_, hs⟩
    rcases List.mem_append.mp hitem' with hitem' | hitem'
    · exact hdone item' hitem'
    · rw [List.mem_singleton.mp hitem']
      exact hitem

/-- A task starts. -/
theorem Good.start (h : Good j dst S M s) (hok : Task.Ok j dst s.dst task) :
    Good j dst (S ∪ {task.path}) M { s with active := s.active ++ [task] } := by
  refine ⟨h.tree, fun task' htask' => ?_, fun q hq => ?_, h.modes⟩
  · rcases List.mem_append.mp htask' with htask' | htask'
    · exact h.tasks task' htask'
    · rw [List.mem_singleton.mp htask']
      exact hok
  · rcases hq with hq | rfl
    · refine (h.settled q hq).imp_right ?_
      rintro ⟨task', htask', hpath⟩
      exact ⟨task', List.mem_append_left _ htask', hpath⟩
    · exact .inr ⟨task, by simp, rfl⟩

/-- The paths that an item settles by itself. -/
def leaf (p : Path) (item : Name × Entry) : Set Path :=
  { q | q = item.1 :: p ∧ item.2.kind ≠ .directory }

theorem triple_begin (hlevel : Level j dst p entries compared) (hitem : item ∈ entries)
    (hagrees : Agrees compared item) (hM : moded p entries compared ⊆ M) :
    Triple (Good j dst S M) (begin j p compared item) (fun _ => Good j dst (S ∪ leaf p item) M)
      (Safe j dst) := by
  obtain ⟨hselected, node, hnode, hentry⟩ := hlevel.selected item hitem
  have hkind := hlevel.kind item hitem hagrees
  have hleaf : S ∪ leaf p item ⊆ S ∪ {item.1 :: p} :=
    Set.union_subset_union_right S fun q hq => hq.1
  unfold begin
  cases node with
  | file content mode =>
      rw [← hentry]
      refine triple_get_bind fun s hs => ?_
      refine ((keeps_makeRoom s.active.length S M).restrict hs).bind fun _ => ?_
      refine triple_modify fun u hu => ?_
      refine (hu.start ⟨⟨content, hnode⟩, hselected, hkind, fun hpresent => ?_,
        fun hfinished => by cases hfinished⟩).mono hleaf (subset_refl M)
      refine hu.modes _ (hM ⟨item, hitem, rfl, by rw [← hentry]; rfl, hagrees, ?_⟩)
      rw [← hentry]
      exact hpresent
  | symlink target =>
      rw [← hentry]
      refine Triple.bind (R := fun _ => Good j dst (S ∪ {item.1 :: p}) M)
        (triple_call fun s hs => ?_) fun changed => ?_
      · refine (triple_link_advance hselected hkind hnode).mono (fun _ h => h) ?_ ?_
        · rintro _ u ⟨hadvance, hfirst⟩
          exact (hs.advance hadvance).settle hfirst
        · rintro u rfl
          exact hs.safe
      · exact (keeps_record _ _ _).mono (fun _ h => h)
          (fun _ _ h => h.mono hleaf (subset_refl M)) fun _ h => h
  | directory mode =>
      rw [← hentry]
      refine triple_pure fun s hs => hs.mono ?_ (subset_refl M)
      rintro q (hq | ⟨-, hq⟩)
      · exact hq
      · rw [← hentry] at hq
        exact absurd rfl hq
  | special mode =>
      exact absurd (congrArg Entry.kind hentry).symm hagrees.1

/-- The selected paths below one. -/
def selectedBelow (j : Job) (dst : Tree) (p : Path) : Set Path :=
  { q | p <:+ q ∧ Selected j dst q }

/-- The paths that the items of a loop settle. -/
def settledBy (f : Name × Entry → Set Path) (items : List (Name × Entry)) : Set Path :=
  { q | ∃ item ∈ items, q ∈ f item }

/-- A loop whose body settles the paths of its item. -/
theorem triple_forM_settle {f : Name × Entry → Run Unit} {g : Name × Entry → Set Path}
    (h : ∀ item ∈ entries, ∀ S,
      Triple (Good j dst S M) (f item) (fun _ => Good j dst (S ∪ g item) M) (Safe j dst)) :
    Triple (Good j dst S M) (entries.forM f) (fun _ => Good j dst (S ∪ settledBy g entries) M)
      (Safe j dst) := by
  have hloop := triple_forM (l := entries) (f := f) (E := Safe j dst)
    (I := fun done => Good j dst (S ∪ settledBy g done) M) ?_
  · refine hloop.mono (fun s hs => hs.mono ?_ (subset_refl M)) (fun _ _ h => h) fun _ h => h
    rintro q (hq | ⟨item, hitem, -⟩)
    · exact hq
    · cases hitem
  · intro done item rest hl
    refine (h item (by rw [hl]; simp) _).mono (fun _ h => h) ?_ fun _ h => h
    intro _ s hs
    refine hs.mono ?_ (subset_refl M)
    rintro q (hq | ⟨item', hitem', hq⟩)
    · exact .inl (.inl hq)
    · rcases List.mem_append.mp hitem' with hitem' | hitem'
      · exact .inl (.inr ⟨item', hitem', hq⟩)
      · rw [List.mem_singleton.mp hitem'] at hq
        exact .inr hq

/-- A selected path is the directory, one of its leaves, or below one of its directories. -/
theorem selectedBelow_subset (hlevel : Level j dst p entries compared) :
    selectedBelow j dst p ⊆ {p} ∪ settledBy (leaf p) entries ∪
      settledBy (fun item => { q | item.2.kind = .directory ∧
        q ∈ selectedBelow j dst (item.1 :: p) }) entries := by
  rintro q ⟨hpq, hq⟩
  rcases Paths.below_iff.mp hpq with rfl | ⟨n, hn⟩
  · exact .inl (.inl rfl)
  · obtain ⟨item, hitem, rfl⟩ := hlevel.complete n (hq.above hn)
    obtain ⟨-, node, hnode, hentry⟩ := hlevel.selected item hitem
    by_cases hkind : item.2.kind = .directory
    · exact .inr ⟨item, hitem, hkind, hn, hq⟩
    · refine .inl (.inr ⟨item, hitem, ?_, hkind⟩)
      by_contra hne
      rw [← hentry, node.kind_entry] at hkind
      exact hq.1 (Tree.get_below_eq_none hnode hkind hn hne)

/-- The first pass settles everything below a directory. -/
theorem triple_walk_first (fuel : ℕ) {mode : ℕ} (hselected : Selected j dst p)
    (hkind : SameKind j dst p) (hsrc : j.src.get p = some (.directory mode)) :
    Triple (Good j dst S M) (walk j fuel p false)
      (fun _ => Good j dst (S ∪ selectedBelow j dst p) M) (Safe j dst) := by
  induction fuel generalizing p mode S M with
  | zero => exact triple_throw fun _ hs => hs.safe
  | succ fuel ih =>
      simp only [walk, Bool.not_false, only_true, only_false]
      refine (triple_scan_source p).bind fun entries => triple_and fun hentries => ?_
      subst hentries
      refine (triple_create hselected hkind hsrc).bind fun _ => ?_
      refine (triple_scan_target hselected).bind fun existing => triple_and fun hlevel => ?_
      refine (triple_checkEntries fun s hs => hs.safe).bind fun _ => triple_and fun hagrees => ?_
      refine (triple_forM_settle fun item hitem S => triple_begin hlevel hitem
        (hagrees item hitem) Set.subset_union_right).bind fun _ => ?_
      refine (triple_forM_settle (g := fun item => { q | item.2.kind = .directory ∧
        q ∈ selectedBelow j dst (item.1 :: p) }) fun item hitem S => ?_).bind fun _ => ?_
      · by_cases hdirectory : item.2.kind = .directory
        · obtain ⟨hitem', node, hnode, hentry⟩ := hlevel.selected item hitem
          rw [← hentry, node.kind_entry] at hdirectory
          obtain ⟨mode', rfl⟩ := Node.eq_directory hdirectory
          have hsame := hlevel.kind item hitem (hagrees item hitem)
          have hdecide : decide (item.2.kind = .directory) = true := by
            rw [← hentry]
            rfl
          rw [hdecide, only_true]
          refine (ih hitem' hsame hnode).mono (fun _ h => h)
            (fun _ s hs => hs.mono ?_ (subset_refl _)) fun _ h => h
          exact Set.union_subset_union_right S fun q hq => hq.2
        · rw [decide_eq_false hdirectory, only_false]
          refine triple_pure fun s hs => hs.mono ?_ (subset_refl _)
          rintro q (hq | hq)
          · exact hq
          · exact absurd hq.1 hdirectory
      · refine triple_pure fun s hs => hs.mono ?_ Set.subset_union_left
        rintro q (hq | hq)
        · exact .inl (.inl (.inl hq))
        · rcases selectedBelow_subset hlevel hq with (hq | hq) | hq
          · exact .inl (.inl (.inr hq))
          · exact .inl (.inr hq)
          · exact .inr hq

theorem run_runTask_idle {i : ℕ} (h : s.active = []) : (runTask j i).run s = .ok () s := by
  rw [run_runTask, h]
  rfl

/-- Nothing runs while the coordinator waits. -/
theorem run_runReady_idle (h : s.active = []) : (runReady j).run s = .ok () s := by
  have hloop : ∀ order : List ℕ, (order.forM (runTask j)).run s = .ok () s := by
    intro order
    induction order with
    | nil => rfl
    | cons i order ih => exact (run_bind_ok (run_runTask_idle h)).trans ih
  exact hloop _

theorem abandon_idle (h : s.active = []) : abandon j s = s := by
  rw [abandon, run_runReady_idle h]
  simp only [← h]

/-- A failure leaves nothing behind but work that was begun. -/
theorem safe_abandon (h : Safe j dst s) : Safe j dst (abandon j s) := by
  have hrun := keeps_runReady ∅ ∅ s h
  unfold abandon
  cases hs : (runReady j).run s with
  | ok a t =>
      rw [hs] at hrun
      exact hrun.forget nofun
  | error e t =>
      rw [hs] at hrun
      exact hrun.forget nofun

/-- A path that is not selected is never touched. -/
theorem Partial.eq_first {x : Option Node} (h : Partial j dst p x) (hp : ¬ Selected j dst p) :
    x = first j dst p := by
  cases h with
  | before => rw [first_of_not_selected hp]
  | after hselected _ => exact absurd hselected hp
  | between hselected _ _ _ _ => exact absurd hselected hp

/-- The first pass puts every path in its place. -/
theorem triple_firstPass {mode : ℕ} (hsrc : j.src.get [] = some (.directory mode))
    (hkind : SameKind j dst []) :
    Triple (Safe j dst) (firstPass j)
      (fun _ s => (∀ p, Partial j dst p (first j dst p)) ∧ s.active = [] ∧
        ∀ p, s.dst.get p = first j dst p) (Safe j dst) := by
  have hselected : Selected j dst [] := ⟨by rw [hsrc]; nofun, not_protected_root⟩
  intro s hs
  have h := ((triple_walk_first (j.src.depth + 1) hselected hkind hsrc).bind
    fun _ => triple_reap_all) s hs
  rw [run_firstPass]
  cases hrun : (do walk j (j.src.depth + 1) [] false; reap j true : Run Unit).run s with
  | error e t =>
      rw [hrun] at h
      exact safe_abandon h
  | ok a t =>
      rw [hrun] at h
      obtain ⟨hgood, hactive⟩ := h
      dsimp only
      rw [abandon_idle hactive]
      have hplaced : ∀ p, t.dst.get p = first j dst p := by
        intro p
        by_cases hp : Selected j dst p
        · rcases hgood.settled p (.inr ⟨List.nil_suffix, hp⟩) with hfirst | ⟨task, htask, -⟩
          · exact hfirst
          · rw [hactive] at htask
            cases htask
        · exact (hgood.tree p).eq_first hp
      exact ⟨fun p => hplaced p ▸ hgood.tree p, hactive, hplaced⟩

/-- The roots of a run that goes on. -/
theorem triple_checkRoots :
    Triple (Safe j dst) (checkRoots j)
      (fun _ s => ((∃ mode, j.src.get [] = some (.directory mode)) ∧ SameKind j dst []) ∧
        Safe j dst s) (Safe j dst) := by
  have hsource : Triple (Safe j dst) (callSource j (root true))
      (fun _ s => (∃ mode, j.src.get [] = some (.directory mode)) ∧ Safe j dst s)
      (Safe j dst) := by
    refine (keeps_runReady ∅ ∅).bind fun _ => (keeps_attempt ∅ ∅).bind fun _ =>
      triple_onSource fun s hs => ?_
    refine (triple_root j.src true).mono (fun _ h => h) ?_ fun _ _ => hs
    rintro _ t ⟨-, hpresent, hkind⟩
    obtain ⟨node, hnode⟩ := Option.ne_none_iff_exists'.mp (hpresent rfl)
    obtain ⟨mode, rfl⟩ := Node.eq_directory (hkind node hnode)
    exact ⟨⟨mode, hnode⟩, hs⟩
  have htarget : Triple (Safe j dst) (call j (root false))
      (fun _ s => (∀ node, dst.get [] = some node → node.kind = .directory) ∧ Safe j dst s)
      (Safe j dst) := by
    refine triple_call fun s hs => (triple_root s.dst false).mono (fun _ h => h) ?_ ?_
    · rintro _ t ⟨rfl, -, hkind⟩
      refine ⟨fun node hnode => ?_, hs⟩
      obtain ⟨node', hnode', hsame, -⟩ := (hs.tree []).keeps hnode
      rw [← hsame]
      exact hkind node' hnode'
    · rintro t rfl
      exact hs
  have hboth : (∃ mode, j.src.get [] = some (.directory mode)) →
      (∀ node, dst.get [] = some node → node.kind = .directory) → SameKind j dst [] := by
    rintro ⟨mode, hmode⟩ hdst node node' hnode hnode'
    rw [hmode] at hnode
    cases hnode
    exact hdst node' hnode'
  unfold checkRoots
  split_ifs
  · refine hsource.bind fun _ => triple_and fun hmode => ?_
    exact htarget.mono (fun _ h => h) (fun _ _ h => ⟨⟨hmode, hboth hmode h.1⟩, h.2⟩) fun _ h => h
  · refine htarget.bind fun _ => triple_and fun hdst => ?_
    exact hsource.mono (fun _ h => h) (fun _ _ h => ⟨⟨h.1, hboth h.1 hdst⟩, h.2⟩) fun _ h => h

/-- Everything before the second pass. -/
theorem triple_prepare :
    Triple (fun s => s = .new dst) (prepare j)
      (fun _ s => (checkOptions j.opts = .ok () ∧ ∃ mode, j.src.get [] = some (.directory mode)) ∧
        (∀ p, Partial j dst p (first j dst p)) ∧ s.active = [] ∧
        ∀ p, s.dst.get p = first j dst p) (Safe j dst) := by
  refine Triple.restrict (P := Safe j dst) ?_ good_new
  unfold prepare
  cases hoptions : checkOptions j.opts with
  | error e => exact triple_throw fun _ h => h
  | ok a =>
      refine triple_checkRoots.bind fun _ => triple_and fun hroots => ?_
      obtain ⟨⟨mode, hsrc⟩, hkind⟩ := hroots
      exact (triple_firstPass hsrc hkind).mono (fun _ h => h)
        (fun _ _ h => ⟨⟨rfl, mode, hsrc⟩, h⟩) fun _ h => h

end Rsync

end Rmote
