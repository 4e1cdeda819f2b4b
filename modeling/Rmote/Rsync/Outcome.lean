import Rmote.Rsync.Repeat

/-!
# What a synchronization achieves

A run that succeeds leaves a destination that meets the specification: the selected entries of
the source are there, what is protected is as it was, and the rest is gone or as it was. A run
that fails in its first pass has lost nothing. A run may be repeated, except where both sides
disagree on the kind of an entry that only one of them excludes and the excluded one was deleted.
-/

namespace Rmote

namespace Rsync

open Hoare

/-- The entry of the destination is what the one of the source asks for. -/
def Alike (o : Options) : Node → Node → Prop
  | .directory mode, .directory mode' => o.preserveMode = true → mode' = mode
  | .file content mode, .file content' mode' =>
      content' = content ∧ (o.preserveMode = true → mode' = mode)
  | .symlink target, .symlink target' => target' = target
  | _, _ => False

/-- The destination `t` is what a run makes of `dst`. -/
structure Meets (j : Job) (dst t : Tree) : Prop where
  transferred : ∀ p node, j.src.get p = some node →
    ¬ Protected j.opts.exclude j.src dst p → ∃ node', t.get p = some node' ∧ Alike j.opts node node'
  shielded : ∀ p, Protected j.opts.exclude j.src dst p → ¬ j.opts.deleteExcluded = true →
    t.get p = dst.get p
  dropped : ∀ p, Protected j.opts.exclude j.src dst p → j.opts.deleteExcluded = true →
    t.get p = none
  spared : ∀ p, j.src.get p = none → ¬ j.opts.delete = true → ¬ j.opts.deleteExcluded = true →
    t.get p = dst.get p
  removed : ∀ p, j.src.get p = none → ¬ Protected j.opts.exclude j.src dst p →
    (j.opts.deleteExcluded = true ∨ (j.opts.delete = true ∧ Bare j dst p)) → t.get p = none
  sheltering : ∀ p, j.src.get p = none → ¬ j.opts.deleteExcluded = true → ¬ Bare j dst p →
    t.get p = dst.get p

/-- Another run on the destination, whose calls do not fail, succeeds and changes nothing. -/
def Repeats (j : Job) (t : Tree) : Prop :=
  ∀ env : Env, (∀ time, env.fails time = none) →
    ∃ r s, (transfer { j with env := env }).run (.new t) = .ok r s ∧ s.dst = t ∧ r.changed = false

/-- Every entry of `dst` is still there with its kind, and one that is not selected or is a
directory has not changed at all. -/
def Undisturbed (j : Job) (dst t : Tree) : Prop :=
  ∀ p node, dst.get p = some node → ∃ node', t.get p = some node' ∧ node'.kind = node.kind ∧
    (¬ Selected j dst p ∨ node.kind = .directory → node' = node)

variable {j : Job} {dst : Tree} {s : Coordinator}

theorem alike_finished {o : Options} {old : Option Node} {node : Node}
    (h : node.kind ≠ .special) : Alike o node (finished o old node) := by
  cases node with
  | directory mode => exact fun hpreserve => if_pos hpreserve
  | file content mode => exact ⟨rfl, fun hpreserve => if_pos hpreserve⟩
  | symlink target => rfl
  | special mode => exact absurd rfl h

theorem Transferred.meets (h : Transferred j dst s) : Meets j dst s.dst where
  transferred p node hsrc hfree := by
    have hp : Selected j dst p := ⟨by rw [hsrc]; nofun, hfree⟩
    exact ⟨_, (h.tree p).trans (final_of_selected hp hsrc),
      alike_finished (h.regular p hp node hsrc)⟩
  shielded p hprotected hexcluded := by
    rw [h.tree, final_of_unwanted fun hp => hp.2 hprotected]
    rintro ⟨-, hextra⟩
    exact (hextra.resolve_left hexcluded).2.1 hprotected
  dropped p hprotected hexcluded := by
    rw [h.tree, final_of_extra ⟨fun hp => hp.2 hprotected, .inl hexcluded⟩]
  spared p hsrc hdelete hexcluded := by
    rw [h.tree, final_of_unwanted fun hp => hp.1 hsrc]
    rintro ⟨-, hextra⟩
    exact hdelete (hextra.resolve_left hexcluded).1
  removed p hsrc hfree hwanted := by
    rw [h.tree, final_of_extra ⟨fun hp => hp.1 hsrc, ?_⟩]
    exact hwanted.imp_right fun hdelete => ⟨hdelete.1, hfree, hdelete.2⟩
  sheltering p hsrc hexcluded hbare := by
    rw [h.tree, final_of_unwanted fun hp => hp.1 hsrc]
    rintro ⟨-, hextra⟩
    exact hbare (hextra.resolve_left hexcluded).2.2

/-- A run may be repeated if and only if no name crosses. -/
theorem Transferred.repeats_iff (h : Transferred j dst s) :
    Repeats j s.dst ↔ ¬ (j.opts.deleteExcluded = true ∧ Crossed j dst) := by
  obtain ⟨mode, hroot⟩ := h.root
  constructor
  · rintro hrepeats ⟨hexcluded, hcrossed⟩
    obtain ⟨r, s', hrun, hsame, -⟩ := hrepeats ⟨fun _ => none, fun _ => [], fun _ _ => 0⟩
      fun _ => rfl
    obtain ⟨p, hnone, hfinal⟩ := exists_missing h.tree hexcluded hcrossed
    have hsecond := triple_transfer.ok rfl hrun
    have htree := hsecond.2.tree p
    rw [hsame, hnone] at htree
    exact hfinal htree.symm
  · intro hcrossed env hfails
    have hsynced := synced_of_final h.tree (by rw [hroot]; nofun) h.regular hcrossed
    exact run_transfer_synced (j := { j with env := env }) hfails ⟨hsynced.same, hsynced.regular⟩
      h.options hroot

/-- A first pass that fails loses nothing. A run that succeeds meets the specification, and it may
be repeated if and only if no name crosses or excluded entries stay. -/
theorem transfer_meets_iff (j : Job) (dst : Tree) :
    (∀ e s, (prepare j).run (.new dst) = .error e s →
      (transfer j).run (.new dst) = .error e s ∧ Undisturbed j dst s.dst) ∧
    ∀ r s, (transfer j).run (.new dst) = .ok r s →
      ((Meets j dst s.dst ∧ Repeats j s.dst) ↔
        ¬ (j.opts.deleteExcluded = true ∧ Crossed j dst)) := by
  constructor
  · intro e s hrun
    refine ⟨run_bind_error hrun, fun p node hnode => ?_⟩
    exact ((triple_prepare.error rfl hrun).tree p).keeps hnode
  · intro r s hrun
    have h := (triple_transfer.ok rfl hrun).2
    rw [← h.repeats_iff]
    exact ⟨And.right, fun hrepeats => ⟨h.meets, hrepeats⟩⟩

/-- A root with one entry. -/
def single (name : Name) (node : Node) : Tree where
  nodes := (AList.singleton [] (.directory 0o755)).insert [name] node
  parents := by
    intro n p hmem
    have hpath : n :: p = [name] ∨ n :: p ∈ (AList.singleton [] (.directory 0o755) :
        AList fun _ : Path => Node) := (AList.mem_insert _).mp hmem
    rcases hpath with hpath | hpath
    · obtain ⟨-, rfl⟩ := List.cons.inj hpath
      exact ⟨0o755, by rw [AList.lookup_insert_ne (by simp)]; rfl⟩
    · rw [AList.mem_keys, AList.keys_singleton] at hpath
      simp at hpath

theorem get_single (name : Name) (node : Node) (p : Path) : (single name node).get p =
    if p = [name] then some node else if p = [] then some (.directory 0o755) else none := by
  change AList.lookup p (AList.insert [name] node (AList.singleton [] (Node.directory 0o755)) :
    AList fun _ : Path => Node) = _
  split_ifs with hname hroot
  · rw [hname, AList.lookup_insert]
  · rw [AList.lookup_insert_ne hname, hroot]
    rfl
  · rw [AList.lookup_insert_ne hname, AList.lookup_eq_none, AList.mem_keys, AList.keys_singleton,
      List.mem_singleton]
    exact hroot

/-- A run that deletes what directories named `x` exclude. -/
def deleting (src : Tree) : Job where
  env := ⟨fun _ => none, fun _ => [], fun _ _ => 0⟩
  opts := ⟨true, true, true, true, 8, 65536, ["x/"]⟩
  src := src

/-- What the result of a run tells about the entry `x`. -/
def view : EStateM.Result Failure Coordinator Result → Option (Bool × Option Node)
  | .ok r s => some (r.changed, s.dst.get ["x"])
  | .error _ _ => none

theorem exists_of_view {result : EStateM.Result Failure Coordinator Result}
    {changed : Bool} {node : Option Node} (h : view result = some (changed, node)) :
    ∃ r s, result = .ok r s ∧ r.changed = changed ∧ s.dst.get ["x"] = node := by
  cases result with
  | error e s => cases h
  | ok r s =>
      obtain ⟨hchanged, hnode⟩ := Prod.mk.inj (Option.some.inj h)
      exact ⟨r, s, rfl, hchanged, hnode⟩

/-- A file goes to a destination that has none of its name. -/
theorem file_repeats :
    ∃ r s, (transfer (deleting (single "x" (.file [1] 0o644)))).run
        (.new (single "y" (.file [] 0o600))) = .ok r s ∧
      s.dst.get ["x"] = some (.file [1] 0o644) ∧
      Meets (deleting (single "x" (.file [1] 0o644))) (single "y" (.file [] 0o600)) s.dst ∧
      Repeats (deleting (single "x" (.file [1] 0o644))) s.dst := by
  have hview : view ((transfer (deleting (single "x" (.file [1] 0o644)))).run
      (.new (single "y" (.file [] 0o600)))) = some (true, some (.file [1] 0o644)) := by
    decide +kernel
  obtain ⟨r, s, hrun, -, hx⟩ := exists_of_view hview
  have hfree : ¬ Crossed (deleting (single "x" (.file [1] 0o644)))
      (single "y" (.file [] 0o600)) := by
    rintro ⟨p, hne, hsrc, -, node, hnode, -⟩
    change (single "x" (.file [1] 0o644)).get p ≠ none at hsrc
    rw [get_single] at hsrc hnode
    split_ifs at hsrc with hx
    · subst hx
      rw [if_neg (by decide), if_neg (by decide)] at hnode
      cases hnode
    · exact hsrc rfl
  obtain ⟨hmeets, hrepeats⟩ := ((transfer_meets_iff _ _).2 r s hrun).mpr fun h => hfree h.2
  exact ⟨r, s, hrun, hx, hmeets, hrepeats⟩

/-- A directory `x` is excluded and deleted; only the second run brings the file `x`. -/
theorem crossed_not_repeated :
    ∃ r s r' s', (transfer (deleting (single "x" (.file [1] 0o644)))).run
        (.new (single "x" (.directory 0o755))) = .ok r s ∧ s.dst.get ["x"] = none ∧
      (transfer (deleting (single "x" (.file [1] 0o644)))).run (.new s.dst) = .ok r' s' ∧
      r'.changed = true ∧ ¬ Repeats (deleting (single "x" (.file [1] 0o644))) s.dst := by
  generalize hrun : (transfer (deleting (single "x" (.file [1] 0o644)))).run
    (.new (single "x" (.directory 0o755))) = result
  have hfirst : view result = some (true, none) := by
    rw [← hrun]
    decide +kernel
  obtain ⟨r, s, rfl, -, hnone⟩ := exists_of_view hfirst
  have hsecond : view ((transfer (deleting (single "x" (.file [1] 0o644)))).run (.new s.dst)) =
      some (true, some (.file [1] 0o644)) := by
    have hstate : s = (match (transfer (deleting (single "x" (.file [1] 0o644)))).run
        (.new (single "x" (.directory 0o755))) with | .ok _ s => s | .error _ s => s) := by
      rw [hrun]
    rw [hstate]
    decide +kernel
  obtain ⟨r', s', hrun', hchanged, -⟩ := exists_of_view hsecond
  refine ⟨r, s, r', s', rfl, hnone, hrun', hchanged, fun hrepeats => ?_⟩
  obtain ⟨r'', s'', hrun'', -, hsame⟩ := hrepeats
    (deleting (single "x" (.file [1] 0o644))).env fun _ => rfl
  cases hrun'.symm.trans hrun''
  rw [hsame] at hchanged
  cases hchanged

end Rsync

end Rmote
