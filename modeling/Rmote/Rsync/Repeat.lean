import Rmote.Rsync.SecondPass

/-!
# A second run

A destination is synced when a further run would make the same of it. On such a destination
every call of the coordinator finds things as they should be: it changes nothing, and it returns
whenever the operating system lets it. So the question whether a run may be repeated is one about
the trees: whether `final` of the result is the result.
-/

namespace Rmote

namespace Rsync

open Hoare

variable (j : Job) (t : Tree)

/-- A run would leave the destination as it is. -/
structure Synced : Prop where
  same : ∀ p, final j t p = t.get p
  regular : ∀ p, Regular j t p

/-- A task that has nothing to do. -/
structure Task.Spare (task : Task) : Prop where
  selected : Selected j t task.path
  source : ∃ content, j.src.get task.path = some (.file content task.mode)
  sound : ∀ failure, task.progress ≠ .failed failure

/-- Nothing has changed so far. -/
structure Quiet (s : Coordinator) : Prop where
  tree : s.dst = t
  unchanged : s.result.changed = false
  tasks : ∀ task ∈ s.active, Task.Spare j t task

/-- The code returns and changes nothing. -/
def Stays {α : Type} (m : Run α) : Prop :=
  Triple (Quiet j t) m (fun _ => Quiet j t) (fun _ => False)

variable {j t} {s s' : Coordinator} {p q : Path} {node : Node} {task : Task} {α β : Type}

theorem Synced.get (h : Synced j t) (hp : Selected j t p) (hsrc : j.src.get p = some node) :
    t.get p = some (finished j.opts (t.get p) node) := by
  rw [← final_of_selected hp hsrc, h.same]

theorem Synced.not_extra (h : Synced j t) (hp : t.get p ≠ none) : ¬ Extra j t p := by
  intro hextra
  rw [← h.same, final_of_extra hextra] at hp
  exact hp rfl

theorem Synced.directory (h : Synced j t) {mode : ℕ} (hp : Selected j t p)
    (hsrc : j.src.get p = some (.directory mode)) :
    ∃ mode', t.get p = some (.directory mode') ∧ (j.opts.preserveMode = true → mode' = mode) := by
  refine ⟨_, h.get hp hsrc, fun hpreserve => ?_⟩
  rw [if_pos hpreserve]

theorem Synced.file (h : Synced j t) {content : Bytes} {mode : ℕ} (hp : Selected j t p)
    (hsrc : j.src.get p = some (.file content mode)) :
    ∃ mode', t.get p = some (.file content mode') ∧
      (j.opts.preserveMode = true → mode' = mode) := by
  refine ⟨_, h.get hp hsrc, fun hpreserve => ?_⟩
  rw [if_pos hpreserve]

theorem Synced.symlink (h : Synced j t) {target : String} (hp : Selected j t p)
    (hsrc : j.src.get p = some (.symlink target)) : t.get p = some (.symlink target) :=
  h.get hp hsrc

/-- The first pass leaves a synced destination as it is, too. -/
theorem Synced.first (h : Synced j t) (p : Path) : Rsync.first j t p = t.get p := by
  by_cases hp : Selected j t p
  · obtain ⟨node, hsrc⟩ := Option.ne_none_iff_exists'.mp hp.1
    by_cases hkind : node.kind = .directory
    · obtain ⟨mode, rfl⟩ := Node.eq_directory hkind
      obtain ⟨mode', hget, -⟩ := h.directory hp hsrc
      rw [first_of_selected hp hsrc, hget]
      rfl
    · rw [← final_eq_first hp hsrc hkind, h.same]
  · exact first_of_not_selected hp

theorem Quiet.of_eq (h : Quiet j t s) (hdst : s'.dst = s.dst)
    (hresult : s'.result.changed = s.result.changed) (hactive : s'.active = s.active) :
    Quiet j t s' :=
  ⟨hdst.trans h.tree, hresult.trans h.unchanged, by rw [hactive]; exact h.tasks⟩

theorem Stays.bind {m : Run α} {f : α → Run β} (h : Stays j t m) (hf : ∀ a, Stays j t (f a)) :
    Stays j t (m >>= f) :=
  Triple.bind h fun a => hf a

theorem stays_pure (a : α) : Stays j t (pure a : Run α) := triple_pure fun _ h => h

theorem stays_get_bind {f : Coordinator → Run α} (h : ∀ s, Stays j t (f s)) :
    Stays j t (get >>= f) :=
  triple_get_bind fun s hs => (h s).restrict hs

theorem stays_forM {γ : Type} {l : List γ} {f : γ → Run Unit} (h : ∀ a ∈ l, Stays j t (f a)) :
    Stays j t (l.forM f) :=
  triple_forM (I := fun _ => Quiet j t) fun done a rest hl => h a (by rw [hl]; simp)

theorem stays_only {pass : Bool} {code : Run Unit} (h : pass = true → Stays j t code) :
    Stays j t (only pass code) := by
  cases pass with
  | true => exact h rfl
  | false => exact stays_pure ()

theorem stays_record {f : Result → Result} (h : ∀ r, (f r).changed = r.changed) :
    Stays j t (record f) :=
  triple_modify fun _ hs => hs.of_eq rfl (h _) rfl

section Calls

variable (hfails : ∀ time, j.env.fails time = none)

include hfails

theorem stays_attempt : Stays j t (attempt j) := by
  intro s hs
  rw [run_attempt, hfails]
  exact hs.of_eq rfl rfl rfl

omit hfails in
theorem triple_onTarget_run {m : Call α} {a : α} (h : m.run t = .ok a t) :
    Triple (Quiet j t) (onTarget m) (fun b s => b = a ∧ Quiet j t s) (fun _ => False) := by
  intro s hs
  rw [run_onTarget, hs.tree, h]
  exact ⟨rfl, rfl, hs.unchanged, hs.tasks⟩

omit hfails in
theorem triple_onSource_run {m : Call α} {a : α} (h : m.run j.src = .ok a j.src) :
    Triple (Quiet j t) (onSource j m) (fun b s => b = a ∧ Quiet j t s) (fun _ => False) := by
  intro s hs
  rw [run_onSource, h]
  exact ⟨rfl, hs⟩

/-- The mode is right already. -/
theorem stays_metadata {mode : ℕ} {present : Option ℕ} (hnode : t.get p = some node)
    (hkind : node.kind = .file ∨ node.kind = .directory)
    (hmode : j.opts.preserveMode = true → node.entry.mode = mode) :
    Stays j t (metadata j p mode present) := by
  unfold metadata
  split_ifs with hset
  · refine (stays_attempt hfails).bind fun _ => ?_
    refine (triple_onTarget_run (run_chmod hnode hkind (hmode hset.1))).bind fun _ =>
      triple_and fun hchanged => ?_
    subst hchanged
    exact stays_record fun r => Bool.or_false r.changed
  · exact stays_pure ()

theorem stays_file (hsynced : Synced j t) (htask : Task.Spare j t task) :
    Stays j t (file j task) := by
  obtain ⟨content, hsrc⟩ := htask.source
  obtain ⟨mode, hget, hmode⟩ := hsynced.file htask.selected hsrc
  refine (stays_attempt hfails).bind fun _ => ?_
  refine (triple_onSource_run (run_readFile hsrc)).bind fun _ => triple_and fun hcontent => ?_
  subst hcontent
  refine stays_get_bind fun s => ?_
  refine (triple_onTarget_run (run_syncFile hget)).bind fun _ => triple_and fun hchanged => ?_
  subst hchanged
  refine (stays_record fun r => Bool.or_false r.changed).bind fun _ => ?_
  exact stays_metadata hfails hget (.inl rfl) hmode

theorem stays_runTask (hsynced : Synced j t) (i : ℕ) : Stays j t (runTask j i) := by
  intro s hs
  rw [run_runTask]
  cases hi : s.active[i]? with
  | none => exact hs
  | some task =>
      dsimp only
      have hspare := hs.tasks task (List.mem_of_getElem? hi)
      split_ifs with hrunning
      · have hfile := stays_file hfails hsynced hspare s hs
        cases hrun : (file j task).run s with
        | error e u =>
            rw [hrun] at hfile
            exact hfile.elim
        | ok a u =>
            rw [hrun] at hfile
            refine ⟨hfile.tree, hfile.unchanged, fun task' htask' => ?_⟩
            rcases List.mem_or_eq_of_mem_set htask' with htask' | rfl
            · exact hfile.tasks task' htask'
            · exact ⟨hspare.selected, hspare.source, nofun⟩
      · exact hs

theorem stays_runReady (hsynced : Synced j t) : Stays j t (runReady j) :=
  stays_get_bind fun _ => stays_forM fun i _ => stays_runTask hfails hsynced i

omit hfails in
theorem firstFailure_eq_none {tasks : List Task}
    (h : ∀ task ∈ tasks, ∀ failure, task.progress ≠ .failed failure) :
    firstFailure tasks = none := by
  induction tasks with
  | nil => rfl
  | cons task tasks ih =>
      rw [firstFailure]
      split
      · rename_i failure hfailure
        exact absurd hfailure (h task List.mem_cons_self failure)
      · exact ih fun task' htask' => h task' (List.mem_cons_of_mem task htask')

omit hfails in
theorem stays_collect : Stays j t collect := by
  intro s hs
  rw [run_collect, firstFailure_eq_none fun task htask => (hs.tasks task htask).sound]
  exact ⟨hs.tree, hs.unchanged, fun task htask => hs.tasks task (List.mem_filter.mp htask).1⟩

theorem stays_wait (hsynced : Synced j t) (all : Bool) : Stays j t (wait j all) := by
  refine stays_get_bind fun s => ?_
  dsimp only
  split_ifs
  · exact stays_forM fun i _ => stays_runTask hfails hsynced i
  · exact stays_runTask hfails hsynced 0
  · exact stays_pure ()

theorem stays_reap (hsynced : Synced j t) (all : Bool) : Stays j t (reap j all) :=
  (stays_runReady hfails hsynced).bind fun _ =>
    (stays_wait hfails hsynced all).bind fun _ => stays_collect

theorem stays_makeRoom (hsynced : Synced j t) (rounds : ℕ) : Stays j t (makeRoom j rounds) := by
  induction rounds with
  | zero => exact stays_pure ()
  | succ rounds ih =>
      refine stays_get_bind fun s => ?_
      split_ifs
      · exact stays_pure ()
      · exact (stays_reap hfails hsynced false).bind fun _ => ih

/-- A call that finds things as they should be. -/
theorem triple_call_run (hsynced : Synced j t) {m : Call α} {a : α} (h : m.run t = .ok a t) :
    Triple (Quiet j t) (call j m) (fun b s => b = a ∧ Quiet j t s) (fun _ => False) :=
  Triple.bind (stays_runReady hfails hsynced) fun _ =>
    Triple.bind (stays_attempt hfails) fun _ => triple_onTarget_run h

theorem triple_callSource_run (hsynced : Synced j t) {m : Call α} {a : α}
    (h : m.run j.src = .ok a j.src) :
    Triple (Quiet j t) (callSource j m) (fun b s => b = a ∧ Quiet j t s) (fun _ => False) :=
  Triple.bind (stays_runReady hfails hsynced) fun _ =>
    Triple.bind (stays_attempt hfails) fun _ => triple_onSource_run h

section Directories

variable (hsynced : Synced j t) {entries compared : List (Name × Entry)} {item : Name × Entry}
  {n : Name} {mode : ℕ}

include hsynced

theorem stays_create (hp : Selected j t p) (hsrc : j.src.get p = some (.directory mode)) :
    Stays j t (create j p) := by
  obtain ⟨mode', hget, -⟩ := hsynced.directory hp hsrc
  refine (triple_call_run hfails hsynced (run_mkdir hget)).bind fun _ =>
    triple_and fun hcreated => ?_
  subst hcreated
  exact stays_record fun r => Bool.or_false r.changed

omit hfails in
/-- The two sides agree on what is selected. -/
theorem agrees_of_synced
    (hcompared : ∀ item ∈ compared, ∃ node, t.get (item.1 :: p) = some node ∧ node.entry = item.2)
    (hitem : Selected j t (item.1 :: p)) (hsrc : j.src.get (item.1 :: p) = some node)
    (hentry : node.entry = item.2) : Agrees compared item := by
  rw [Agrees, ← hentry, node.kind_entry]
  refine ⟨hsynced.regular _ hitem node hsrc, fun entry hlookup => ?_⟩
  obtain ⟨node', hnode', rfl⟩ := hcompared _ (mem_of_lookup hlookup)
  rw [hsynced.get hitem hsrc] at hnode'
  rw [node'.kind_entry, ← Option.some.inj hnode', kind_finished]

omit hfails hsynced in
theorem stays_checkEntry (h : Agrees compared item) : Stays j t (checkEntry p compared item) := by
  unfold checkEntry
  rw [if_neg h.1, if_neg]
  · exact stays_pure ()
  · cases hlookup : compared.lookup item.1 with
    | none => simp
    | some entry => simpa using h.2 entry hlookup

theorem stays_begin (hitem : Selected j t (item.1 :: p))
    (hsrc : j.src.get (item.1 :: p) = some node) (hentry : node.entry = item.2) :
    Stays j t (begin j p compared item) := by
  unfold begin
  rw [← hentry]
  cases node with
  | file content mode =>
      refine stays_get_bind fun s => ?_
      refine (stays_makeRoom hfails hsynced _).bind fun _ => triple_modify fun u hu => ?_
      refine ⟨hu.tree, hu.unchanged, fun task htask => ?_⟩
      rcases List.mem_append.mp htask with htask | htask
      · exact hu.tasks task htask
      · rw [List.mem_singleton.mp htask]
        exact ⟨hitem, ⟨content, hsrc⟩, nofun⟩
  | symlink target =>
      refine (triple_call_run hfails hsynced (run_link (hsynced.symlink hitem hsrc))).bind
        fun _ => triple_and fun hchanged => ?_
      subst hchanged
      exact stays_record fun r => Bool.or_false r.changed
  | directory mode => exact stays_pure ()
  | special mode => exact stays_pure ()

/-- There is nothing to remove. -/
theorem stays_removeExtra (hdelete : j.opts.delete = true ∨ j.opts.deleteExcluded = true)
    (hn : ¬ Selected j t (n :: p))
    (hwanted : j.opts.deleteExcluded = true ∨
      ¬ Protected j.opts.exclude j.src t (n :: p)) : Stays j t (removeExtra j p n) := by
  have hkept : ∀ q, (n :: p) <:+ q → t.get q ≠ none →
      Kept (if j.opts.deleteExcluded then [] else j.opts.exclude) t (n :: p) q := by
    intro q hq hget
    have hextra := hsynced.not_extra hget
    have hunselected : ¬ Selected j t q := fun hselected => hn (hselected.above hq)
    have hexcluded : ¬ j.opts.deleteExcluded = true := fun h => hextra ⟨hunselected, .inl h⟩
    rw [if_neg hexcluded, kept_iff hn (hwanted.resolve_left hexcluded) hq]
    by_contra hspared
    rw [not_or, not_not] at hspared
    exact hextra ⟨hunselected, .inr ⟨hdelete.resolve_right hexcluded, hspared⟩⟩
  refine triple_get_bind fun s hs => ?_
  refine Triple.restrict ?_ hs
  refine (triple_call_run hfails hsynced (run_remove (Nat.succ_pos _) (fun q _ hget => ?_)
    hkept)).bind fun count => triple_and fun hcount => ?_
  · rw [hs.tree]
    have hdepth := Tree.length_le_depth hget
    omega
  · subst hcount
    exact stays_record fun r => Bool.or_false r.changed

theorem stays_removeExtras (hends : Ends j t p entries compared) :
    Stays j t (removeExtras j p entries compared) := by
  unfold removeExtras
  split_ifs with hdelete
  · refine stays_forM fun n hn => ?_
    obtain ⟨hunselected, hwanted⟩ := hends.extra n hn
    exact stays_removeExtra hfails hsynced ((Bool.or_eq_true _ _).mp hdelete) hunselected hwanted
  · exact stays_pure ()

omit hfails hsynced in
theorem run_modeOf {u : Tree} (h : u.get p = some (.directory mode)) :
    (modeOf p).run u = .ok mode u := by
  simp [modeOf, inspect, h, Node.entry]

theorem stays_finish (hends : Ends j t p entries compared) (hp : Selected j t p)
    (hsrc : j.src.get p = some (.directory mode)) : Stays j t (finish j p entries compared) := by
  obtain ⟨mode', hget, hmode⟩ := hsynced.directory hp hsrc
  refine (stays_removeExtras hfails hsynced hends).bind fun _ => ?_
  refine (triple_callSource_run hfails hsynced (run_modeOf hsrc)).bind fun _ =>
    triple_and fun hm => ?_
  subst hm
  exact stays_metadata hfails hget (.inr rfl) hmode

/-- A walk through a synced directory returns. -/
theorem stays_walk (finishing : Bool) (fuel : ℕ) (hfuel : j.src.depth < fuel + p.length)
    (hp : Selected j t p) (hsrc : j.src.get p = some (.directory mode)) :
    Stays j t (walk j fuel p finishing) := by
  induction fuel generalizing p mode with
  | zero =>
      have hdepth := Tree.length_le_depth hp.1
      omega
  | succ fuel ih =>
      obtain ⟨mode', hget, -⟩ := hsynced.directory hp hsrc
      have hlevel := level_of_partial (t := t) (fun _ => .before) hp
      have hends := ends_of_first (fun n => (hsynced.first (n :: p)).symm) hp hlevel
      simp only [walk]
      refine (triple_callSource_run hfails hsynced (run_scan hsrc)).bind fun _ =>
        triple_and fun hentries => ?_
      subst hentries
      refine (stays_only fun _ => stays_create hfails hsynced hp hsrc).bind fun _ => ?_
      refine (triple_call_run hfails hsynced (run_scan hget)).bind fun _ =>
        triple_and fun hexisting => ?_
      subst hexisting
      refine (stays_forM fun item hitem => ?_).bind fun _ => ?_
      · obtain ⟨hitem, node, hnode, hentry⟩ := hlevel.selected item hitem
        exact stays_checkEntry (agrees_of_synced hsynced (fun _ h => mem_of_comparable h) hitem
          hnode hentry)
      refine (stays_only fun _ => stays_forM fun item hitem => ?_).bind fun _ => ?_
      · obtain ⟨hitem, node, hnode, hentry⟩ := hlevel.selected item hitem
        exact stays_begin hfails hsynced hitem hnode hentry
      refine (stays_forM fun item hitem => stays_only fun hdirectory => ?_).bind fun _ => ?_
      · obtain ⟨hitem, node, hnode, hentry⟩ := hlevel.selected item hitem
        rw [decide_eq_true_eq, ← hentry, node.kind_entry] at hdirectory
        obtain ⟨mode'', rfl⟩ := Node.eq_directory hdirectory
        refine ih ?_ hitem hnode
        rw [List.length_cons]
        omega
      exact stays_only fun _ => stays_finish hfails hsynced hends hp hsrc

end Directories

theorem stays_firstPass (hsynced : Synced j t) {mode : ℕ}
    (hsrc : j.src.get [] = some (.directory mode)) : Stays j t (firstPass j) := by
  have hselected : Selected j t [] := ⟨by rw [hsrc]; nofun, not_protected_root⟩
  intro s hs
  have hwalk := (stays_walk hfails hsynced false (j.src.depth + 1) (Nat.lt_succ_self _) hselected
    hsrc).bind (fun _ => stays_reap hfails hsynced true) s hs
  rw [run_firstPass]
  cases hrun : (do walk j (j.src.depth + 1) [] false; reap j true : Run Unit).run s with
  | error e u =>
      rw [hrun] at hwalk
      exact hwalk.elim
  | ok a u =>
      rw [hrun] at hwalk
      have hready := stays_runReady hfails hsynced u hwalk
      dsimp only
      unfold abandon
      cases hrun' : (runReady j).run u with
      | error e v =>
          rw [hrun'] at hready
          exact hready.elim
      | ok b v =>
          rw [hrun'] at hready
          exact ⟨hready.tree, hready.unchanged, nofun⟩

/-- A run on a synced destination succeeds and changes nothing. -/
theorem run_transfer_synced (hsynced : Synced j t) (hoptions : checkOptions j.opts = .ok ())
    {mode : ℕ} (hsrc : j.src.get [] = some (.directory mode)) :
    ∃ r s, (transfer j).run (.new t) = .ok r s ∧ s.dst = t ∧ r.changed = false := by
  have hselected : Selected j t [] := ⟨by rw [hsrc]; nofun, not_protected_root⟩
  obtain ⟨mode', hget, -⟩ := hsynced.directory hselected hsrc
  have hsource := triple_callSource_run hfails hsynced (@run_root _ _ true hsrc)
  have htarget := triple_call_run hfails hsynced (@run_root _ _ false hget)
  have hroots : Stays j t (checkRoots j) := by
    unfold checkRoots
    split_ifs
    · refine hsource.bind fun _ => triple_and fun _ => ?_
      exact htarget.mono (fun _ h => h) (fun _ _ h => h.2) fun _ h => h
    · refine htarget.bind fun _ => triple_and fun _ => ?_
      exact hsource.mono (fun _ h => h) (fun _ _ h => h.2) fun _ h => h
  have hprepare : Stays j t (prepare j) := by
    unfold prepare
    rw [hoptions]
    exact hroots.bind fun _ => stays_firstPass hfails hsynced hsrc
  have htransfer : Triple (Quiet j t) (transfer j) (fun r s => r = s.result ∧ Quiet j t s)
      (fun _ => False) := by
    refine Triple.bind hprepare fun _ => Triple.bind (stays_walk hfails hsynced true _
      (Nat.lt_succ_self _) hselected hsrc) fun _ => triple_get_bind fun s hs =>
        triple_pure fun u hu => ?_
    rw [hu]
    exact ⟨rfl, hs⟩
  have hrun := htransfer (.new t) ⟨rfl, rfl, nofun⟩
  cases hresult : (transfer j).run (.new t) with
  | error e s =>
      rw [hresult] at hrun
      exact hrun.elim
  | ok r s =>
      rw [hresult] at hrun
      obtain ⟨rfl, hquiet⟩ := hrun
      exact ⟨_, s, rfl, hquiet.tree, hquiet.unchanged⟩

end Calls

/-! ## Which destinations are synced -/

/-- An entry of the source that nothing on its side excludes stands under a name that is excluded
at the destination by its kind there. -/
def Crossed (j : Job) (dst : Tree) : Prop :=
  ∃ p, p ≠ [] ∧ j.src.get p ≠ none ∧
    (∀ q, q ≠ [] → q <:+ p → ¬ ExcludedAt j.opts.exclude j.src q) ∧
    ExcludedAt j.opts.exclude dst p

theorem finished_finished (o : Options) (old : Option Node) (node : Node) :
    finished o (some (finished o old node)) node = finished o old node := by
  cases node with
  | directory mode =>
      simp only [finished, oldMode, Node.entry]
      split_ifs <;> rfl
  | file content mode =>
      simp only [finished, placed, oldMode, Node.entry]
      split_ifs <;> rfl
  | symlink target => rfl
  | special mode => rfl

section Result

variable {dst : Tree} (hT : ∀ p, t.get p = final j dst p)

include hT

/-- What is selected is not excluded at its place. -/
theorem not_excludedAt_of_selected (hp : Selected j dst p) (hne : p ≠ []) :
    ¬ ExcludedAt j.opts.exclude t p := by
  obtain ⟨node, hsrc⟩ := Option.ne_none_iff_exists'.mp hp.1
  refine not_excludedAt ((hT p).trans (final_of_selected hp hsrc)) ?_
  rw [kind_finished]
  exact hp.not_excluded hne hsrc

/-- What is excluded at the result was excluded before. -/
theorem ExcludedAt.before (h : ExcludedAt j.opts.exclude t p) (hne : p ≠ []) :
    ExcludedAt j.opts.exclude dst p ∧ ¬ j.opts.deleteExcluded = true := by
  have hp : ¬ Selected j dst p := fun hp => not_excludedAt_of_selected hT hp hne h
  have hextra : ¬ Extra j dst p := by
    intro hextra
    exact h.get ((hT p).trans (final_of_extra hextra))
  refine ⟨(excludedAt_congr ((hT p).trans (final_of_unwanted hp hextra))).mp h, fun hexcluded => ?_⟩
  exact hextra ⟨hp, .inl hexcluded⟩

/-- What was excluded still is, unless that is not wanted. -/
theorem ExcludedAt.after (h : ExcludedAt j.opts.exclude dst p) (hne : p ≠ [])
    (hexcluded : ¬ j.opts.deleteExcluded = true) : ExcludedAt j.opts.exclude t p := by
  have hprotected : Protected j.opts.exclude j.src dst p :=
    ⟨p, hne, List.suffix_refl p, .inr h⟩
  refine (excludedAt_congr ((hT p).trans (final_of_unwanted (fun hp => hp.2 hprotected) ?_))).mpr h
  rintro ⟨-, hextra⟩
  exact (hextra.resolve_left hexcluded).2.1 hprotected

theorem Selected.after (h : Selected j dst p) : Selected j t p := by
  refine ⟨h.1, ?_⟩
  rintro ⟨q, hne, hq, hsrc | hdst⟩
  · exact h.2 ⟨q, hne, hq, .inl hsrc⟩
  · exact h.2 ⟨q, hne, hq, .inr (hdst.before hT hne).1⟩

/-- Nothing more is selected in a second run. -/
theorem Selected.before (hcrossed : ¬ (j.opts.deleteExcluded = true ∧ Crossed j dst))
    (h : Selected j t p) : Selected j dst p := by
  refine ⟨h.1, ?_⟩
  rintro ⟨q, hne, hq, hsrc | hdst⟩
  · exact h.2 ⟨q, hne, hq, .inl hsrc⟩
  · by_cases hexcluded : j.opts.deleteExcluded = true
    · refine hcrossed ⟨hexcluded, q, hne, Tree.get_of_below hq h.1, fun r hr hrq hsrc => ?_, hdst⟩
      exact h.2 ⟨r, hr, hrq.trans hq, .inl hsrc⟩
    · exact h.2 ⟨q, hne, hq, .inr (hdst.after hT hne hexcluded)⟩

/-- Nothing that is left is unwanted. -/
theorem Extra.before (hroot : j.src.get [] ≠ none) (h : Extra j t p) : Extra j dst p := by
  have hne : p ≠ [] := by
    rintro rfl
    exact h.1 ⟨hroot, not_protected_root⟩
  refine ⟨fun hp => h.1 (hp.after hT), ?_⟩
  by_cases hexcluded : j.opts.deleteExcluded = true
  · exact .inl hexcluded
  · obtain ⟨hdelete, hprotected, hbare⟩ := h.2.resolve_left hexcluded
    refine .inr ⟨hdelete, ?_, fun r hr hdst => ?_⟩
    · rintro ⟨q, hq, hqp, hsrc | hdst⟩
      · exact hprotected ⟨q, hq, hqp, .inl hsrc⟩
      · exact hprotected ⟨q, hq, hqp, .inr (hdst.after hT hq hexcluded)⟩
    · refine hbare r hr (hdst.after hT ?_ hexcluded)
      rintro rfl
      exact hne (List.suffix_nil.mp hr)

/-- The result of a run is synced, unless names cross. -/
theorem synced_of_final (hroot : j.src.get [] ≠ none) (hregular : ∀ p, Regular j dst p)
    (hcrossed : ¬ (j.opts.deleteExcluded = true ∧ Crossed j dst)) : Synced j t := by
  refine ⟨fun p => ?_, fun p hp => hregular p (hp.before hT hcrossed)⟩
  by_cases hp : Selected j t p
  · obtain ⟨node, hsrc⟩ := Option.ne_none_iff_exists'.mp hp.1
    have hget := (hT p).trans (final_of_selected (hp.before hT hcrossed) hsrc)
    rw [final_of_selected hp hsrc, hget, finished_finished]
  · by_cases hextra : Extra j t p
    · rw [final_of_extra hextra, hT, final_of_extra (hextra.before hT hroot)]
    · exact final_of_unwanted hp hextra

/-- An entry that crosses is selected in a second run, and the first one removed it. -/
theorem exists_missing (hexcluded : j.opts.deleteExcluded = true) (hcrossed : Crossed j dst) :
    ∃ p, t.get p = none ∧ final j t p ≠ none := by
  obtain ⟨p, hne, hsrc, hfree, hdst⟩ := hcrossed
  have hp : ¬ Selected j dst p := fun hp => hp.2 ⟨p, hne, List.suffix_refl p, .inr hdst⟩
  have hselected : Selected j t p := by
    refine ⟨hsrc, ?_⟩
    rintro ⟨q, hq, hqp, hsrc | ht⟩
    · exact hfree q hq hqp hsrc
    · exact (ht.before hT hq).2 hexcluded
  obtain ⟨node, hnode⟩ := Option.ne_none_iff_exists'.mp hsrc
  refine ⟨p, (hT p).trans (final_of_extra ⟨hp, .inl hexcluded⟩), ?_⟩
  rw [final_of_selected hselected hnode]
  nofun

end Result

end Rsync

end Rmote
