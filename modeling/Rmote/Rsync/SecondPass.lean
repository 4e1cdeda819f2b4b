import Rmote.Rsync.FirstPass

/-!
# The second pass

No task is left when the second pass begins, so it goes through the directories one after the
other. `final` is the destination after it, path by path: a selected directory has its mode, what
the source does not have is gone if that is wanted, and everything else is as the first pass left
it. The paths of a set are done, and the others are as they were.
-/

namespace Rmote

namespace Rsync

open Hoare

/-- What a selected entry is at the end. -/
def finished (o : Options) (old : Option Node) : Node → Node
  | .directory mode => .directory (if o.preserveMode then mode else oldMode 0o700 old)
  | node => placed o old node

@[simp] theorem kind_finished (o : Options) (old : Option Node) (node : Node) :
    (finished o old node).kind = node.kind := by
  cases node <;> rfl

variable (j : Job) (dst : Tree)

/-- Nothing at the path or below it is excluded at the destination. -/
def Bare (p : Path) : Prop := ∀ r, p <:+ r → ¬ ExcludedAt j.opts.exclude dst r

/-- The entry of the destination is not wanted. -/
def Extra (p : Path) : Prop :=
  ¬ Selected j dst p ∧ (j.opts.deleteExcluded = true ∨
    (j.opts.delete = true ∧ ¬ Protected j.opts.exclude j.src dst p ∧ Bare j dst p))

open Classical in
/-- The destination after the second pass. -/
noncomputable def final (p : Path) : Option Node :=
  if Selected j dst p then (j.src.get p).map (finished j.opts (dst.get p))
  else if Extra j dst p then none
  else dst.get p

/-- The source has nothing under the path that cannot be transferred. -/
def Regular (p : Path) : Prop :=
  Selected j dst p → ∀ node, j.src.get p = some node → node.kind ≠ .special

/-- The paths of `S` are done, and the others are as the first pass left them. -/
structure Finishing (S : Set Path) (s : Coordinator) : Prop where
  idle : s.active = []
  regular : ∀ p ∈ S, Regular j dst p
  done : ∀ p ∈ S, s.dst.get p = final j dst p
  left : ∀ p, p ∉ S → s.dst.get p = first j dst p

variable {j dst} {S S' : Set Path} {s s' : Coordinator} {t t' : Tree} {n : Name} {p q : Path}
  {node : Node} {α : Type}

theorem final_of_selected (h : Selected j dst p) (hsrc : j.src.get p = some node) :
    final j dst p = some (finished j.opts (dst.get p) node) := by
  rw [final, if_pos h, hsrc]
  rfl

theorem final_of_extra (h : Extra j dst p) : final j dst p = none := by
  rw [final, if_neg h.1, if_pos h]

theorem final_of_unwanted (h : ¬ Selected j dst p) (hextra : ¬ Extra j dst p) :
    final j dst p = dst.get p := by
  rw [final, if_neg h, if_neg hextra]

/-- What is not there and not selected does not come. -/
theorem final_of_none (h : ¬ Selected j dst p) (hnone : dst.get p = none) :
    final j dst p = none := by
  by_cases hextra : Extra j dst p
  · exact final_of_extra hextra
  · rw [final_of_unwanted h hextra, hnone]

/-- The second pass has nothing to do for what is no directory. -/
theorem final_eq_first (h : Selected j dst p) (hsrc : j.src.get p = some node)
    (hkind : node.kind ≠ .directory) : final j dst p = first j dst p := by
  rw [final_of_selected h hsrc, first_of_selected h hsrc]
  cases node with
  | directory mode => exact absurd rfl hkind
  | file content mode => rfl
  | symlink target => rfl
  | special mode => rfl

theorem Finishing.of_eq (h : Finishing j dst S s) (hdst : s'.dst = s.dst)
    (hactive : s'.active = s.active) : Finishing j dst S s' := by
  refine ⟨hactive.trans h.idle, h.regular, ?_, ?_⟩
  · rw [hdst]
    exact h.done
  · rw [hdst]
    exact h.left

/-- Paths for which nothing remains to be done are done. -/
theorem Finishing.extend (h : Finishing j dst S s) (hS : S ⊆ S')
    (hsame : ∀ p ∈ S', p ∉ S → Regular j dst p ∧ final j dst p = first j dst p) :
    Finishing j dst S' s := by
  refine ⟨h.idle, fun p hp => ?_, fun p hp => ?_, fun p hp => h.left p fun hmem => hp (hS hmem)⟩
  · by_cases hmem : p ∈ S
    · exact h.regular p hmem
    · exact (hsame p hp hmem).1
  · by_cases hmem : p ∈ S
    · exact h.done p hmem
    · rw [h.left p hmem, (hsame p hp hmem).2]

/-- A call while no task is left. -/
theorem triple_call_idle {m : Call α} {P : Coordinator → Prop} {Q : α → Coordinator → Prop}
    (hidle : ∀ s, P s → s.active = []) (hclock : ∀ s, P s → P { s with clock := s.clock + 1 })
    (h : ∀ s, P s → Triple (fun t => t = s.dst) m (fun a t => Q a { s with dst := t })
      (fun _ => True)) : Triple P (call j m) Q (fun _ => True) := by
  have hready : Triple P (runReady j) (fun _ => P) (fun _ => True) :=
    triple_of_run fun s hs => ⟨(), s, run_runReady_idle (hidle s hs), hs⟩
  refine hready.bind fun _ => (triple_attempt hclock fun _ _ => trivial).bind fun _ => ?_
  exact triple_onTarget h

theorem triple_callSource_idle {m : Call α} {P : Coordinator → Prop}
    {Q : α → Coordinator → Prop} (hidle : ∀ s, P s → s.active = [])
    (hclock : ∀ s, P s → P { s with clock := s.clock + 1 })
    (h : ∀ s, P s → Triple (fun t => t = j.src) m (fun a _ => Q a s) (fun _ => True)) :
    Triple P (callSource j m) Q (fun _ => True) := by
  have hready : Triple P (runReady j) (fun _ => P) (fun _ => True) :=
    triple_of_run fun s hs => ⟨(), s, run_runReady_idle (hidle s hs), hs⟩
  refine hready.bind fun _ => (triple_attempt hclock fun _ _ => trivial).bind fun _ => ?_
  exact triple_onSource h

section Removal

/-- Where no pattern is given, nothing is excluded. -/
theorem not_excludedAt_nil : ¬ ExcludedAt [] t p := by
  rintro ⟨node, -, hexcluded⟩
  simp [excluded] at hexcluded

theorem kept_congr {patterns : List String} (hsame : ∀ q, p <:+ q → t.get q = t'.get q)
    (hq : p <:+ q) : Kept patterns t p q ↔ Kept patterns t' p q := by
  have hdst : ∀ r, p <:+ r → (ExcludedAt patterns t r ↔ ExcludedAt patterns t' r) :=
    fun r hr => excludedAt_congr (hsame r hr)
  constructor
  · rintro (⟨r, hpr, hrq, hr⟩ | ⟨r, hqr, hr⟩)
    · exact .inl ⟨r, hpr, hrq, (hdst r hpr).mp hr⟩
    · exact .inr ⟨r, hqr, (hdst r (hq.trans hqr)).mp hr⟩
  · rintro (⟨r, hpr, hrq, hr⟩ | ⟨r, hqr, hr⟩)
    · exact .inl ⟨r, hpr, hrq, (hdst r hpr).mpr hr⟩
    · exact .inr ⟨r, hqr, (hdst r (hq.trans hqr)).mpr hr⟩

/-- Below a child that only the destination has, the removal spares what is protected and what
lies above something excluded. -/
theorem kept_iff (hn : ¬ Selected j dst (n :: p))
    (hfree : ¬ Protected j.opts.exclude j.src dst (n :: p)) (hq : (n :: p) <:+ q) :
    Kept j.opts.exclude dst (n :: p) q ↔
      Protected j.opts.exclude j.src dst q ∨ ¬ Bare j dst q := by
  constructor
  · rintro (⟨r, hnr, hrq, hr⟩ | ⟨r, hqr, hr⟩)
    · refine .inl ⟨r, ?_, hrq, .inr hr⟩
      rintro rfl
      exact absurd hnr.length_le (by simp)
    · exact .inr fun hbare => hbare r hqr hr
  · rintro (⟨r, hne, hrq, hr⟩ | hbare)
    · rcases Paths.comparable hrq hq with hrn | hnr
      · exact absurd ⟨r, hne, hrn, hr⟩ hfree
      · rcases hr with hr | hr
        · exact absurd ⟨Tree.get_of_below hnr hr.get, hfree⟩ hn
        · exact .inl ⟨r, hnr, hrq, hr⟩
    · rw [Bare] at hbare
      push Not at hbare
      exact .inr hbare

/-- The removal of a child that is not selected does what `final` says. -/
theorem removed_final {patterns : List String} {count : ℕ}
    (hn : ¬ Selected j dst (n :: p)) (hsame : ∀ q, (n :: p) <:+ q → t.get q = dst.get q)
    (hpatterns : patterns = if j.opts.deleteExcluded then [] else j.opts.exclude)
    (hwanted : j.opts.deleteExcluded = true ∨
      (j.opts.delete = true ∧ ¬ Protected j.opts.exclude j.src dst (n :: p)))
    (h : Removed patterns t (n :: p) count t') (hq : (n :: p) <:+ q) :
    t'.get q = final j dst q := by
  have hunselected : ¬ Selected j dst q := fun hselected => hn (hselected.above hq)
  by_cases hexcluded : j.opts.deleteExcluded = true
  · rw [final_of_extra ⟨hunselected, .inl hexcluded⟩]
    rw [if_pos hexcluded] at hpatterns
    subst hpatterns
    refine h.gone q hq ?_
    rintro (⟨r, -, -, hr⟩ | ⟨r, -, hr⟩)
    · exact not_excludedAt_nil hr
    · exact not_excludedAt_nil hr
  · obtain ⟨hdelete, hfree⟩ := hwanted.resolve_left hexcluded
    rw [if_neg hexcluded] at hpatterns
    subst hpatterns
    have hkept := (kept_congr hsame hq).trans (kept_iff hn hfree hq)
    by_cases hspared : Protected j.opts.exclude j.src dst q ∨ ¬ Bare j dst q
    · rw [h.same q (.inr (hkept.mpr hspared)), hsame q hq, final_of_unwanted hunselected]
      rintro ⟨-, hextra⟩
      obtain ⟨-, hnot, hbare⟩ := hextra.resolve_left hexcluded
      exact hspared.elim hnot fun h => h hbare
    · rw [h.gone q hq (hkept.not.mpr hspared), final_of_extra]
      rw [not_or, not_not] at hspared
      exact ⟨hunselected, .inr ⟨hdelete, hspared⟩⟩

/-- An entry that only the destination has goes, as far as that is wanted. -/
theorem triple_removeExtra (hn : ¬ Selected j dst (n :: p))
    (hwanted : j.opts.deleteExcluded = true ∨
      (j.opts.delete = true ∧ ¬ Protected j.opts.exclude j.src dst (n :: p)))
    (hS : ∀ q, (n :: p) <:+ q → q ∉ S) :
    Triple (Finishing j dst S) (removeExtra j p n)
      (fun _ => Finishing j dst (S ∪ { q | (n :: p) <:+ q })) (fun _ => True) := by
  refine triple_get_bind fun s hs => ?_
  refine Triple.bind (R := fun _ => Finishing j dst (S ∪ { q | (n :: p) <:+ q })) ?_
    fun _ => triple_modify fun u hu => hu.of_eq rfl rfl
  refine Triple.mono (P := fun u => u.dst = s.dst ∧ u.active = []) ?_ ?_ (fun _ _ h => h)
    fun _ h => h
  · refine triple_call_idle (fun _ h => h.2) (fun _ h => h) fun u hu => ?_
    rw [hu.1]
    refine (triple_remove _ _ s.dst (n :: p) (Nat.succ_pos _) fun q _ hget => ?_).mono
      (fun _ h => h) (fun count t ht => ?_) fun _ _ => trivial
    · have hdepth := Tree.length_le_depth hget
      omega
    · refine ⟨hu.2, fun q hq => ?_, fun q hq => ?_, fun q hq => ?_⟩
      · rcases hq with hq | hq
        · exact hs.regular q hq
        · exact fun hselected => absurd (hselected.above hq) hn
      · by_cases hnq : (n :: p) <:+ q
        · refine removed_final hn (fun r hr => ?_) rfl hwanted ht hnq
          rw [hs.left r (hS r hr), first_of_not_selected fun hselected => hn (hselected.above hr)]
        · exact (ht.same q (.inl hnq)).trans (hs.done q (hq.resolve_right hnq))
      · have hnq : ¬ (n :: p) <:+ q := fun hnq => hq (.inr hnq)
        exact (ht.same q (.inl hnq)).trans (hs.left q fun hmem => hq (.inl hmem))
  · intro u hu
    rw [hu]
    exact ⟨rfl, hs.idle⟩

end Removal

section Children

variable {entries compared : List (Name × Entry)}

/-- A loop over children of a directory, each of which does the paths below it. -/
theorem triple_forM_children {γ : Type} {l : List γ} (name : γ → Name) {f : γ → Run Unit}
    {Q : γ → Prop} (hnodup : (l.map name).Nodup)
    (hS : ∀ a ∈ l, ∀ q, (name a :: p) <:+ q → q ∉ S)
    (h : ∀ a ∈ l, ∀ S, (∀ q, (name a :: p) <:+ q → q ∉ S) →
      Triple (Finishing j dst S) (f a)
        (fun _ => Finishing j dst (S ∪ { q | Q a ∧ (name a :: p) <:+ q })) (fun _ => True)) :
    Triple (Finishing j dst S) (l.forM f)
      (fun _ => Finishing j dst (S ∪ { q | ∃ a ∈ l, Q a ∧ (name a :: p) <:+ q }))
      (fun _ => True) := by
  have hloop := triple_forM (l := l) (f := f) (E := fun _ => True)
    (I := fun done => Finishing j dst (S ∪ { q | ∃ a ∈ done, Q a ∧ (name a :: p) <:+ q })) ?_
  · refine hloop.mono (fun s hs => hs.extend Set.subset_union_left ?_) (fun _ _ h => h) fun _ h => h
    rintro q (hq | ⟨a, ha, -⟩) hnot
    · exact absurd hq hnot
    · cases ha
  · intro done a rest hl
    rw [hl, List.map_append, List.map_cons] at hnodup
    refine (h a (by rw [hl]; simp) _ fun q hq hmem => ?_).mono (fun _ h => h) (fun _ s hs => ?_)
      fun _ h => h
    · rcases hmem with hmem | ⟨b, hb, -, hbq⟩
      · exact hS a (by rw [hl]; simp) q hq hmem
      · rw [Paths.child_unique hq hbq] at hnodup
        exact List.disjoint_of_nodup_append hnodup (List.mem_map_of_mem hb) List.mem_cons_self
    · have hset : S ∪ { q | ∃ b ∈ done ++ [a], Q b ∧ (name b :: p) <:+ q } =
          S ∪ { q | ∃ b ∈ done, Q b ∧ (name b :: p) <:+ q } ∪
            { q | Q a ∧ (name a :: p) <:+ q } := by
        ext q
        simp only [Set.mem_union, Set.mem_ofPred_eq, List.mem_append, List.mem_singleton]
        constructor
        · rintro (hq | ⟨b, hb | rfl, hq⟩)
          · exact .inl (.inl hq)
          · exact .inl (.inr ⟨b, hb, hq⟩)
          · exact .inr hq
        · rintro ((hq | ⟨b, hb, hq⟩) | hq)
          · exact .inl hq
          · exact .inr ⟨b, .inl hb, hq⟩
          · exact .inr ⟨a, .inr rfl, hq⟩
      rw [hset]
      exact hs

/-- What the coordinator knows of the names that only the destination has. -/
structure Ends (j : Job) (dst : Tree) (p : Path) (entries compared : List (Name × Entry)) :
    Prop where
  nodup : (extras entries compared).Nodup
  extra : ∀ n ∈ extras entries compared, ¬ Selected j dst (n :: p) ∧
    (j.opts.deleteExcluded = true ∨ ¬ Protected j.opts.exclude j.src dst (n :: p))
  rest : ∀ n, n ∉ extras entries compared → ¬ Selected j dst (n :: p) →
    dst.get (n :: p) = none ∨
      (¬ j.opts.deleteExcluded = true ∧ Protected j.opts.exclude j.src dst (n :: p))

theorem comparable_sublist (existing : List (Name × Entry)) :
    (comparable j p entries existing).Sublist existing := by
  unfold comparable
  split_ifs
  · exact List.Sublist.refl _
  · exact List.filter_sublist

theorem nodup_transferable (existing : List (Name × Entry)) :
    ((transferable j p (entriesOf t p) existing).map Prod.fst).Nodup :=
  (List.filter_sublist.map Prod.fst).nodup (nodup_entriesOf t p)

theorem ends_of_first (ht : ∀ n, t.get (n :: p) = first j dst (n :: p)) (hp : Selected j dst p)
    (hlevel : Level j dst p (transferable j p (entriesOf j.src p) (entriesOf t p))
      (comparable j p (entriesOf j.src p) (entriesOf t p))) :
    Ends j dst p (transferable j p (entriesOf j.src p) (entriesOf t p))
      (comparable j p (entriesOf j.src p) (entriesOf t p)) := by
  have hprotected : ∀ n, ¬ Selected j dst (n :: p) →
      (shields j p (entriesOf j.src p ++ entriesOf t p) n = true ↔
        Protected j.opts.exclude j.src dst (n :: p)) := by
    intro n hn
    have hdst : t.get (n :: p) = dst.get (n :: p) := by rw [ht, first_of_not_selected hn]
    rw [shields_iff, excludedAt_congr hdst, protected_cons, or_iff_left hp.2]
  have hselected : ∀ n ∉ (transferable j p (entriesOf j.src p) (entriesOf t p)).map Prod.fst,
      ¬ Selected j dst (n :: p) := by
    rintro n hn hselected
    obtain ⟨item, hitem, rfl⟩ := hlevel.complete n hselected
    exact hn (List.mem_map_of_mem hitem)
  refine ⟨?_, fun n hn => ?_, fun n hn hunselected => ?_⟩
  · refine List.Nodup.filter _ ?_
    exact ((comparable_sublist (entriesOf t p)).map Prod.fst).nodup (nodup_entriesOf t p)
  · obtain ⟨hmem, hnot⟩ := List.mem_filter.mp hn
    have hunselected := hselected n (by simpa using hnot)
    refine ⟨hunselected, ?_⟩
    by_cases hexcluded : j.opts.deleteExcluded = true
    · exact .inl hexcluded
    · right
      rw [← hprotected n hunselected]
      obtain ⟨item, hitem, rfl⟩ := List.mem_map.mp hmem
      rw [comparable, if_neg hexcluded] at hitem
      simpa using (List.mem_filter.mp hitem).2
  · by_cases hnone : dst.get (n :: p) = none
    · exact .inl hnone
    · right
      obtain ⟨node, hnode⟩ := Option.ne_none_iff_exists'.mp hnone
      have hentry : (n, node.entry) ∈ entriesOf t p := by
        refine mem_entriesOf.mpr ⟨node, ?_, rfl⟩
        rw [ht, first_of_not_selected hunselected, hnode]
      have hentries : n ∉ (transferable j p (entriesOf j.src p) (entriesOf t p)).map Prod.fst := by
        intro hmem
        obtain ⟨item, hitem, rfl⟩ := List.mem_map.mp hmem
        exact hunselected (hlevel.selected item hitem).1
      have hcompared : (n, node.entry) ∉ comparable j p (entriesOf j.src p) (entriesOf t p) := by
        intro hmem
        exact hn (List.mem_filter.mpr ⟨List.mem_map_of_mem hmem, by simpa using hentries⟩)
      unfold comparable at hcompared
      split_ifs at hcompared with hexcluded
      · exact absurd hentry hcompared
      · refine ⟨hexcluded, (hprotected n hunselected).mp ?_⟩
        by_contra hshields
        exact hcompared (List.mem_filter.mpr ⟨hentry, by simpa using hshields⟩)

/-- The names that only the destination has go, if that is wanted. -/
theorem triple_removeExtras (hends : Ends j dst p entries compared)
    (hS : ∀ n, ¬ Selected j dst (n :: p) → ∀ q, (n :: p) <:+ q → q ∉ S) :
    Triple (Finishing j dst S) (removeExtras j p entries compared)
      (fun _ => Finishing j dst (S ∪ { q | ∃ n, ¬ Selected j dst (n :: p) ∧ (n :: p) <:+ q }))
      (fun _ => True) := by
  have hsame : ∀ n q, ¬ Selected j dst (n :: p) → (n :: p) <:+ q →
      (¬ Extra j dst q ∨ dst.get (n :: p) = none) →
        Regular j dst q ∧ final j dst q = first j dst q := by
    intro n q hn hq hkept
    have hunselected : ¬ Selected j dst q := fun hselected => hn (hselected.above hq)
    refine ⟨fun hselected => absurd hselected hunselected, ?_⟩
    rw [first_of_not_selected hunselected]
    rcases hkept with hextra | hnone
    · exact final_of_unwanted hunselected hextra
    · have hqnone : dst.get q = none := by
        by_contra hget
        exact Tree.get_of_below hq hget hnone
      rw [final_of_none hunselected hqnone, hqnone]
  unfold removeExtras
  split_ifs with hdelete
  · refine (triple_forM_children (fun n => n) (Q := fun _ => True)
      (by rw [List.map_id']; exact hends.nodup)
      (fun n hn => hS n (hends.extra n hn).1) fun n hn S' hS' => ?_).mono (fun _ h => h)
      (fun _ s hs => hs.extend ?_ ?_) fun _ h => h
    · obtain ⟨hunselected, hwanted⟩ := hends.extra n hn
      refine (triple_removeExtra hunselected ?_ hS').mono (fun _ h => h) (fun _ s hs => ?_)
        fun _ h => h
      · rw [Bool.or_eq_true] at hdelete
        by_cases hexcluded : j.opts.deleteExcluded = true
        · exact .inl hexcluded
        · exact .inr ⟨hdelete.resolve_right hexcluded, hwanted.resolve_left hexcluded⟩
      · exact hs.extend (Set.union_subset_union_right S' fun q hq => ⟨trivial, hq⟩)
          fun q hq hnot => absurd (hq.imp_right And.right) hnot
    · rintro q (hq | ⟨n, hn, -, hq⟩)
      · exact .inl hq
      · exact .inr ⟨n, (hends.extra n hn).1, hq⟩
    · rintro q (hq | ⟨n, hn, hq⟩) hnot
      · exact absurd (.inl hq) hnot
      · have hrest := hends.rest n (fun hmem => hnot (.inr ⟨n, hmem, trivial, hq⟩)) hn
        refine hsame n q hn hq (hrest.symm.imp_left ?_)
        rintro ⟨hexcluded, hprotected⟩ ⟨-, hextra⟩
        exact (hextra.resolve_left hexcluded).2.1 (hprotected.below hq)
  · refine triple_pure fun s hs => hs.extend Set.subset_union_left ?_
    rintro q (hq | ⟨n, hn, hq⟩) hnot
    · exact absurd hq hnot
    · refine hsame n q hn hq (.inl ?_)
      rw [Bool.or_eq_true, not_or] at hdelete
      rintro ⟨-, hextra | hextra⟩
      · exact hdelete.2 hextra
      · exact hdelete.1 hextra.1

/-- The directory gets its mode. -/
theorem triple_metadata_directory {mode : ℕ} (hp : Selected j dst p)
    (hsrc : j.src.get p = some (.directory mode)) (hS : p ∉ S) :
    Triple (Finishing j dst S) (metadata j p mode none)
      (fun _ => Finishing j dst (S ∪ {p})) (fun _ => True) := by
  have hfinal : final j dst p = some (.directory
      (if j.opts.preserveMode then mode else oldMode 0o700 (dst.get p))) :=
    final_of_selected hp hsrc
  have hfirst : first j dst p = some (.directory (oldMode 0o700 (dst.get p))) :=
    first_of_selected hp hsrc
  have hregular : Regular j dst p := by
    intro _ node hnode
    rw [hsrc] at hnode
    cases hnode
    nofun
  unfold metadata
  split_ifs with hset
  · rw [if_pos hset.1] at hfinal
    refine (triple_attempt (fun _ h => h.of_eq rfl rfl) fun _ _ => trivial).bind fun _ => ?_
    refine Triple.bind (R := fun _ => Finishing j dst (S ∪ {p})) (triple_onTarget fun s hs => ?_)
      fun _ => triple_modify fun u hu => hu.of_eq rfl rfl
    refine (triple_chmod s.dst p mode).mono (fun _ h => h) ?_ fun _ _ => trivial
    have hnode := (hs.left p hS).trans hfirst
    rintro changed t ⟨node, hnode', -, hchange⟩
    rw [hnode] at hnode'
    cases hnode'
    have ht : ∀ q, t.get q = if q = p then final j dst p else s.dst.get q := by
      intro q
      rcases hchange with ⟨-, rfl, hmode⟩ | ⟨-, hput⟩
      · split_ifs with hq
        · rw [hq, hnode, hfinal]
          exact congrArg (fun m => some (Node.directory m)) hmode
        · rfl
      · rw [Tree.get_put hput, hfinal]
        rfl
    refine ⟨hs.idle, fun q hq => ?_, fun q hq => ?_, fun q hq => ?_⟩
    · rcases hq with hq | rfl
      · exact hs.regular q hq
      · exact hregular
    · change t.get q = _
      rw [ht]
      split_ifs with hqp
      · rw [hqp]
      · exact hs.done q (hq.resolve_right hqp)
    · change t.get q = _
      rw [ht, if_neg fun hqp : q = p => hq (.inr hqp)]
      exact hs.left q fun hmem => hq (.inl hmem)
  · refine triple_pure fun s hs => hs.extend Set.subset_union_left ?_
    rintro q (hq | rfl) hnot
    · exact absurd hq hnot
    · have hpreserve : ¬ j.opts.preserveMode = true := fun h => hset ⟨h, nofun⟩
      exact ⟨hregular, by rw [hfinal, hfirst, if_neg hpreserve]⟩

theorem triple_modeOf {mode : ℕ} (h : t.get p = some (.directory mode)) :
    Triple (fun u => u = t) (modeOf p) (fun m _ => m = mode) (fun _ => True) := by
  refine triple_get_bind fun s hs => ?_
  rw [hs, inspect, h]
  exact triple_pure fun _ _ => rfl

/-- Everything below a selected entry that is no directory is as it was. -/
theorem final_below_leaf (hhalfway : ∀ p, Partial j dst p (first j dst p))
    (hp : Selected j dst p) (hsrc : j.src.get p = some node) (hkind : node.kind ≠ .directory)
    (hspecial : node.kind ≠ .special) (hq : p <:+ q) :
    Regular j dst q ∧ final j dst q = first j dst q := by
  by_cases hqp : q = p
  · rw [hqp]
    refine ⟨fun _ node' hnode' => ?_, final_eq_first hp hsrc hkind⟩
    rw [hsrc] at hnode'
    cases hnode'
    exact hspecial
  · have hunselected : ¬ Selected j dst q :=
      fun hselected => hselected.1 (Tree.get_below_eq_none hsrc hkind hq hqp)
    have hnone : dst.get q = none := by
      by_contra hget
      obtain ⟨old, hold⟩ := Option.ne_none_iff_exists'.mp (Tree.get_of_below hq hget)
      obtain ⟨new, hnew, hsame, -⟩ := (hhalfway p).keeps hold
      rw [first_of_selected hp hsrc] at hnew
      rw [← Option.some.inj hnew, kind_placed] at hsame
      exact hget (Tree.get_below_eq_none hold (hsame ▸ hkind) hq hqp)
    refine ⟨fun hselected => absurd hselected hunselected, ?_⟩
    rw [final_of_none hunselected hnone, first_of_not_selected hunselected, hnone]

/-- The second pass does everything below a directory. -/
theorem triple_walk_second (hhalfway : ∀ p, Partial j dst p (first j dst p)) (fuel : ℕ)
    {mode : ℕ} (hp : Selected j dst p) (hsrc : j.src.get p = some (.directory mode))
    (hS : ∀ q, p <:+ q → q ∉ S) :
    Triple (Finishing j dst S) (walk j fuel p true)
      (fun _ => Finishing j dst (S ∪ { q | p <:+ q })) (fun _ => True) := by
  induction fuel generalizing p mode S with
  | zero => exact triple_throw fun _ _ => trivial
  | succ fuel ih =>
      simp only [walk, Bool.not_true, only_true, only_false]
      refine Triple.bind (R := fun entries s => entries = entriesOf j.src p ∧ Finishing j dst S s)
        (triple_callSource_idle (fun _ h => h.idle) (fun _ h => h.of_eq rfl rfl) fun s hs => ?_)
        fun entries => triple_and fun hentries => ?_
      · exact (triple_scan j.src p).mono (fun _ h => h) (fun _ _ h => ⟨h.2.1, hs⟩)
          fun _ _ => trivial
      subst hentries
      refine (triple_pure (R := fun _ => Finishing j dst S) fun _ h => h).bind fun _ => ?_
      refine Triple.bind (R := fun existing s =>
        (Level j dst p (transferable j p (entriesOf j.src p) existing)
            (comparable j p (entriesOf j.src p) existing) ∧
          Ends j dst p (transferable j p (entriesOf j.src p) existing)
            (comparable j p (entriesOf j.src p) existing)) ∧ Finishing j dst S s)
        (triple_call_idle (fun _ h => h.idle) (fun _ h => h.of_eq rfl rfl) fun s hs => ?_)
        fun existing => triple_and fun hscan => ?_
      · refine (triple_scan s.dst p).mono (fun _ h => h) ?_ fun _ _ => trivial
        rintro existing t ⟨rfl, rfl, -⟩
        have hfirst : ∀ n, s.dst.get (n :: p) = first j dst (n :: p) :=
          fun n => hs.left _ (hS _ (List.suffix_cons n p))
        have hlevel := level_of_partial (t := s.dst) (fun n => hfirst n ▸ hhalfway (n :: p)) hp
        exact ⟨⟨hlevel, ends_of_first hfirst hp hlevel⟩, hs⟩
      obtain ⟨hlevel, hends⟩ := hscan
      refine (triple_checkEntries fun s hs => trivial).bind fun _ => triple_and fun hagrees => ?_
      refine (triple_pure (R := fun _ => Finishing j dst S) fun _ h => h).bind fun _ => ?_
      refine (triple_forM_children Prod.fst (Q := fun item => item.2.kind = .directory)
        (nodup_transferable _) (fun item _ q hq => hS q (Paths.below_of_child hq))
        fun item hitem S' hS' => ?_).bind fun _ => ?_
      · obtain ⟨hitem', node, hnode, hentry⟩ := hlevel.selected item hitem
        by_cases hdirectory : item.2.kind = .directory
        · rw [decide_eq_true hdirectory, only_true]
          rw [← hentry, node.kind_entry] at hdirectory
          obtain ⟨mode', rfl⟩ := Node.eq_directory hdirectory
          refine (ih hitem' hnode hS').mono (fun _ h => h) (fun _ s hs => ?_) fun _ h => h
          refine hs.extend (Set.union_subset_union_right S' fun q hq => ⟨?_, hq⟩)
            fun q hq hnot => absurd (hq.imp_right And.right) hnot
          rw [← hentry]
          rfl
        · rw [decide_eq_false hdirectory, only_false]
          refine triple_pure fun s hs => hs.extend Set.subset_union_left ?_
          rintro q (hq | ⟨hq, -⟩) hnot
          · exact absurd hq hnot
          · exact absurd hq hdirectory
      refine (triple_removeExtras hends fun n hn q hq hmem => ?_).bind fun _ => ?_
      · rcases hmem with hmem | ⟨item, hitem, -, hitem'⟩
        · exact hS q (Paths.below_of_child hq) hmem
        · rw [Paths.child_unique hq hitem'] at hn
          exact hn (hlevel.selected item hitem).1
      refine Triple.bind (R := fun m s => m = mode ∧ Finishing j dst _ s)
        (triple_callSource_idle (fun _ h => h.idle) (fun _ h => h.of_eq rfl rfl) fun s hs =>
          (triple_modeOf hsrc).mono (fun _ h => h) (fun _ _ h => ⟨h, hs⟩) fun _ h => h)
        fun m => triple_and fun hm => ?_
      subst hm
      refine (triple_metadata_directory hp hsrc ?_).mono (fun _ h => h)
        (fun _ s hs => hs.extend ?_ ?_) fun _ h => h
      · rintro ((hmem | ⟨item, -, -, hitem⟩) | ⟨n, -, hn⟩)
        · exact hS p (List.suffix_refl p) hmem
        · exact Paths.not_child_below _ _ hitem
        · exact Paths.not_child_below _ _ hn
      · rintro q (((hmem | ⟨item, -, -, hitem⟩) | ⟨n, -, hn⟩) | rfl)
        · exact .inl hmem
        · exact .inr (Paths.below_of_child hitem)
        · exact .inr (Paths.below_of_child hn)
        · exact .inr (List.suffix_refl _)
      · rintro q (hq | hq) hnot
        · exact absurd (.inl (.inl (.inl hq))) hnot
        · rcases Paths.below_iff.mp hq with rfl | ⟨n, hn⟩
          · exact absurd (.inr rfl) hnot
          · by_cases hselected : Selected j dst (n :: p)
            · -- A selected child that is not done is no directory.
              obtain ⟨item, hitem, rfl⟩ := hlevel.complete n hselected
              obtain ⟨-, node, hnode, hentry⟩ := hlevel.selected item hitem
              have hspecial := (hagrees item hitem).1
              rw [← hentry, node.kind_entry] at hspecial
              refine final_below_leaf hhalfway hselected hnode (fun hdirectory => ?_) hspecial hn
              rw [← node.kind_entry, hentry] at hdirectory
              exact hnot (.inl (.inl (.inr ⟨item, hitem, hdirectory, hn⟩)))
            · exact absurd (.inl (.inr ⟨n, hselected, hn⟩)) hnot

end Children

/-- What a synchronization that succeeds has done. -/
structure Transferred (j : Job) (dst : Tree) (s : Coordinator) : Prop where
  options : checkOptions j.opts = .ok ()
  root : ∃ mode, j.src.get [] = some (.directory mode)
  before : ∀ p, Partial j dst p (first j dst p)
  regular : ∀ p, Regular j dst p
  tree : ∀ p, s.dst.get p = final j dst p

theorem triple_transfer :
    Triple (fun s => s = .new dst) (transfer j)
      (fun r s => r = s.result ∧ Transferred j dst s) (fun _ => True) := by
  refine (triple_prepare.mono (fun _ h => h) (fun _ _ h => h) fun _ _ => trivial).bind fun _ =>
    triple_and fun hstart => triple_and fun hhalfway => ?_
  obtain ⟨hoptions, mode, hsrc⟩ := hstart
  have hselected : Selected j dst [] := ⟨by rw [hsrc]; nofun, not_protected_root⟩
  refine Triple.bind (R := fun _ => Finishing j dst (∅ ∪ { q | [] <:+ q })) ?_ fun _ => ?_
  · exact (triple_walk_second hhalfway _ hselected hsrc fun _ _ => id).mono
      (fun s hs => ⟨hs.1, nofun, nofun, fun p _ => hs.2 p⟩) (fun _ _ h => h) fun _ h => h
  · refine triple_get_bind fun s hs => triple_pure fun u hu => ?_
    rw [hu]
    exact ⟨rfl, hoptions, ⟨mode, hsrc⟩, hhalfway, fun p => hs.regular p (.inr List.nil_suffix),
      fun p => hs.done p (.inr List.nil_suffix)⟩

end Rsync

end Rmote
