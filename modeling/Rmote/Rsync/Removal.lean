import Rmote.Rsync.Tree

/-!
# The removal of what is not spared

`removal` is the recursion of `Rsync.remove` over any test of the entries that it spares. It
returns for every tree: of the paths below the start those are left that are spared, lie below a
spared one or above one, nothing else changes, and the number that it returns is the number of
entries that are gone.
-/

namespace Rmote

namespace Rsync

open Hoare

/-- Take away an entry that nothing is below. -/
def discard (p : Path) : Call Unit := do
  match (← get).drop p with
  | some t => set t
  | none => throw (.os "Directory not empty")

/-- The recursion of `remove`. The number is a bound for the depth of the tree below the path. -/
def removal (spared : Path → Kind → Bool) : ℕ → Path → Call ℕ
  | 0, _ => throw .recursion
  | fuel + 1, p => do
      match inspect (← get) p with
      | none => return 0
      | some entry =>
          if spared p entry.kind then return 0
          else if entry.kind = .directory then
            let entries ← scan p
            let count ← entries.foldlM (fun count item => do
              return count + (← removal spared fuel (item.1 :: p))) 0
            if (← scan p).isEmpty then
              discard p
              return count + 1
            else
              return count
          else
            discard p
            return 1

section Sizes

variable {t s : Tree} {p q : Path}

/-- The paths of the entries. -/
def Tree.paths (t : Tree) : List Path := t.nodes.keys

theorem Tree.mem_paths : p ∈ t.paths ↔ t.get p ≠ none := by
  rw [Tree.paths, ← AList.mem_keys, Tree.get_ne_none]

theorem Tree.nodup_paths (t : Tree) : t.paths.Nodup := t.nodes.keys_nodup

/-- The entries of the first tree that the second one has not. -/
def gone (t s : Tree) : List Path := t.paths.filter fun q => (s.get q).isNone

theorem mem_gone : q ∈ gone t s ↔ t.get q ≠ none ∧ s.get q = none := by
  rw [gone, List.mem_filter, Tree.mem_paths, Option.isNone_iff_eq_none]

theorem nodup_gone : (gone t s).Nodup := t.nodup_paths.filter _

/-- Nothing comes to a tree that has lost some entries. -/
theorem length_gone (h : ∀ q, s.get q ≠ none → t.get q ≠ none) :
    s.paths.length + (gone t s).length = t.paths.length := by
  have hkept : (t.paths.filter fun q => !(s.get q).isNone).Perm s.paths := by
    refine (List.perm_ext_iff_of_nodup (t.nodup_paths.filter _) s.nodup_paths).mpr fun q => ?_
    rw [List.mem_filter, Tree.mem_paths, Tree.mem_paths, Bool.not_eq_true', ← Bool.not_eq_true,
      Option.isNone_iff_eq_none]
    exact ⟨fun hq => hq.2, fun hq => ⟨h q hq, hq⟩⟩
  rw [← hkept.length_eq, gone, Nat.add_comm]
  exact (List.length_eq_length_filter_add _).symm

theorem Tree.length_drop (h : t.drop p = some s) (hp : t.get p ≠ none) :
    s.paths.length + 1 = t.paths.length := by
  have hget := Tree.get_drop h
  have hgone : (gone t s).Perm [p] := by
    refine (List.perm_ext_iff_of_nodup nodup_gone (List.nodup_singleton p)).mpr fun q => ?_
    rw [mem_gone, hget, List.mem_singleton]
    split_ifs with hq
    · rw [hq]
      exact ⟨fun _ => rfl, fun _ => ⟨hp, rfl⟩⟩
    · exact ⟨fun h => absurd h.2 h.1, fun h => absurd h hq⟩
  have hlength := length_gone (t := t) (s := s) fun q hq => by
    rw [hget] at hq
    split_ifs at hq
    · exact absurd rfl hq
    · exact hq
  rw [hgone.length_eq] at hlength
  exact hlength

end Sizes

variable {spared : Path → Kind → Bool} {t s : Tree} {p q : Path} {count : ℕ}

/-- The path names something that is spared. -/
def SparedAt (spared : Path → Kind → Bool) (t : Tree) (p : Path) : Prop :=
  ∃ node, t.get p = some node ∧ spared p node.kind = true

/-- The removal of `p` leaves `q` where it is. -/
def Remains (spared : Path → Kind → Bool) (t : Tree) (p q : Path) : Prop :=
  (∃ r, p <:+ r ∧ r <:+ q ∧ SparedAt spared t r) ∨ ∃ r, q <:+ r ∧ SparedAt spared t r

/-- What the removal of `p` does to the tree `t`. -/
structure Cleared (spared : Path → Kind → Bool) (t : Tree) (p : Path) (count : ℕ) (s : Tree) :
    Prop where
  gone : ∀ q, p <:+ q → ¬ Remains spared t p q → s.get q = none
  same : ∀ q, ¬ p <:+ q ∨ Remains spared t p q → s.get q = t.get q
  zero : count = 0 → s = t
  length : s.paths.length + count = t.paths.length

theorem SparedAt.get (h : SparedAt spared t p) : t.get p ≠ none := by
  obtain ⟨node, hnode, -⟩ := h
  rw [hnode]
  nofun

theorem sparedAt_congr (h : s.get p = t.get p) : SparedAt spared s p ↔ SparedAt spared t p := by
  rw [SparedAt, SparedAt, h]

theorem not_sparedAt {node : Node} (hnode : t.get p = some node)
    (h : ¬ spared p node.kind = true) : ¬ SparedAt spared t p := by
  rintro ⟨node', hnode', hspared⟩
  rw [hnode] at hnode'
  cases hnode'
  exact h hspared

/-- The path itself is left when something below it is spared. -/
theorem remains_self : Remains spared t p p ↔ ∃ r, p <:+ r ∧ SparedAt spared t r := by
  constructor
  · rintro (⟨r, hpr, -, hr⟩ | hr)
    · exact ⟨r, hpr, hr⟩
    · exact hr
  · exact .inr

/-- Below a child of a path that is not spared, the child decides. -/
theorem remains_child {n : Name} (hp : ¬ SparedAt spared t p) (hq : (n :: p) <:+ q)
    (hsame : ∀ r, (n :: p) <:+ r → s.get r = t.get r) :
    Remains spared s (n :: p) q ↔ Remains spared t p q := by
  constructor
  · rintro (⟨r, hnr, hrq, hr⟩ | ⟨r, hqr, hr⟩)
    · exact .inl ⟨r, Paths.below_of_child hnr, hrq, (sparedAt_congr (hsame r hnr)).mp hr⟩
    · exact .inr ⟨r, hqr, (sparedAt_congr (hsame r (hq.trans hqr))).mp hr⟩
  · rintro (⟨r, hpr, hrq, hr⟩ | ⟨r, hqr, hr⟩)
    · rcases Paths.between hq hpr hrq with rfl | hnr
      · exact absurd hr hp
      · exact .inl ⟨r, hnr, hrq, (sparedAt_congr (hsame r hnr)).mpr hr⟩
    · exact .inr ⟨r, hqr, (sparedAt_congr (hsame r (hq.trans hqr))).mpr hr⟩

/-- An entry that is there is left as it is, or it is gone. -/
theorem Cleared.sub (h : Cleared spared t p count s) (hq : s.get q ≠ none) : t.get q ≠ none := by
  by_cases hkept : ¬ p <:+ q ∨ Remains spared t p q
  · rw [← h.same q hkept]
    exact hq
  · push Not at hkept
    exact absurd (h.gone q hkept.1 hkept.2) hq

/-- The number is the number of entries that are gone. -/
theorem Cleared.length_gone (h : Cleared spared t p count s) : (Rsync.gone t s).length = count := by
  have hlength := Rsync.length_gone fun q hq => h.sub hq
  have := h.length
  omega

/-- The removal finds nothing that it may take. -/
theorem cleared_nothing (h : ∀ q, p <:+ q → t.get q ≠ none → Remains spared t p q) :
    Cleared spared t p 0 t where
  gone q hpq hkept := by
    by_contra hq
    exact hkept (h q hpq hq)
  same _ _ := rfl
  zero _ := rfl
  length := rfl

theorem cleared_absent (h : t.get p = none) : Cleared spared t p 0 t :=
  cleared_nothing fun _ hpq hq => absurd h (Tree.get_of_below hpq hq)

theorem cleared_spared (h : SparedAt spared t p) : Cleared spared t p 0 t :=
  cleared_nothing fun _ hpq _ => .inl ⟨p, List.suffix_refl _, hpq, h⟩

theorem triple_discard (h : t.names p = []) (hp : t.get p ≠ none) :
    Triple (fun s => s = t) (discard p)
      (fun _ s => (∀ q, s.get q = if q = p then none else t.get q) ∧
        s.paths.length + 1 = t.paths.length) (fun _ => False) := by
  refine triple_get_bind fun s hs => ?_
  subst hs
  obtain ⟨t', hdrop⟩ := Tree.drop_of_names h
  rw [hdrop]
  exact fun _ _ => ⟨Tree.get_drop hdrop, Tree.length_drop hdrop hp⟩

/-- An entry that is no directory goes. -/
theorem cleared_leaf {node : Node} (hnode : t.get p = some node) (hkind : node.kind ≠ .directory)
    (hspared : ¬ SparedAt spared t p) (hs : ∀ q, s.get q = if q = p then none else t.get q)
    (hlength : s.paths.length + 1 = t.paths.length) : Cleared spared t p 1 s := by
  have hkept : ¬ Remains spared t p p := by
    rw [remains_self]
    rintro ⟨r, hpr, hr⟩
    by_cases hrp : r = p
    · exact hspared (hrp ▸ hr)
    · exact hr.get (Tree.get_below_eq_none hnode hkind hpr hrp)
  refine ⟨?_, ?_, nofun, hlength⟩
  · intro q hpq _
    rw [hs]
    split_ifs with hqp
    · rfl
    · exact Tree.get_below_eq_none hnode hkind hpq hqp
  · intro q hq
    rw [hs, if_neg]
    rintro rfl
    rcases hq with hq | hq
    · exact hq (List.suffix_refl _)
    · exact hkept hq

/-- The children of a directory that are done. -/
structure Clearing (spared : Path → Kind → Bool) (t : Tree) (p : Path) (done : List Name)
    (count : ℕ) (s : Tree) : Prop where
  gone : ∀ n ∈ done, ∀ q, (n :: p) <:+ q → ¬ Remains spared t p q → s.get q = none
  same : ∀ q, (∀ n ∈ done, ¬ (n :: p) <:+ q) ∨ Remains spared t p q → s.get q = t.get q
  zero : count = 0 → s = t
  length : s.paths.length + count = t.paths.length

theorem clearing_nil : Clearing spared t p [] 0 t :=
  ⟨nofun, fun _ _ => rfl, fun _ => rfl, rfl⟩

variable {done : List Name} {n : Name} {k : ℕ} {s' : Tree}

theorem Clearing.sub (h : Clearing spared t p done count s) (hq : s.get q ≠ none) :
    t.get q ≠ none := by
  by_cases hdone : (∀ n ∈ done, ¬ (n :: p) <:+ q) ∨ Remains spared t p q
  · rw [← h.same q hdone]
    exact hq
  · push Not at hdone
    obtain ⟨⟨n, hn, hnq⟩, hkept⟩ := hdone
    exact absurd (h.gone n hn q hnq hkept) hq

theorem Clearing.untouched (h : Clearing spared t p done count s) (hn : n ∉ done) {r : Path}
    (hr : (n :: p) <:+ r) : s.get r = t.get r := by
  refine h.same r (.inl fun m hm hmr => ?_)
  rw [Paths.child_unique hmr hr] at hm
  exact hn hm

theorem Clearing.child (h : Clearing spared t p done count s) (hp : ¬ SparedAt spared t p)
    (hn : n ∉ done) (hr : Cleared spared s (n :: p) k s') :
    Clearing spared t p (done ++ [n]) (count + k) s' := by
  have hkept : ∀ q, (n :: p) <:+ q → (Remains spared s (n :: p) q ↔ Remains spared t p q) :=
    fun q hq => remains_child hp hq fun r hr => h.untouched hn hr
  constructor
  · intro m hm q hmq hq
    rcases List.mem_append.mp hm with hm | hm
    · rw [hr.same q (.inl fun hnq => hn (Paths.child_unique hmq hnq ▸ hm))]
      exact h.gone m hm q hmq hq
    · rw [List.mem_singleton.mp hm] at hmq
      exact hr.gone q hmq ((hkept q hmq).not.mpr hq)
  · intro q hq
    by_cases hnq : (n :: p) <:+ q
    · have hq : Remains spared t p q := hq.resolve_left fun hall => hall n (by simp) hnq
      rw [hr.same q (.inr ((hkept q hnq).mpr hq)), h.untouched hn hnq]
    · rw [hr.same q (.inl hnq)]
      exact h.same q (hq.imp_left fun hall m hm => hall m (List.mem_append_left _ hm))
  · intro hzero
    obtain ⟨hcount, hk⟩ := Nat.add_eq_zero_iff.mp hzero
    rw [hr.zero hk, h.zero hcount]
  · have hbefore := h.length
    have hafter := hr.length
    omega

/-- All children are done, and some are left. -/
theorem Clearing.keep (h : Clearing spared t p (t.names p) count s) (hleft : s.names p ≠ []) :
    Cleared spared t p count s := by
  obtain ⟨n, hn⟩ := List.exists_mem_of_ne_nil _ hleft
  have hget := Tree.mem_names.mp hn
  have hself : Remains spared t p p := by
    have hchild : Remains spared t p (n :: p) := by
      by_contra hkept
      exact hget (h.gone n (Tree.mem_names.mpr (h.sub hget)) _ (List.suffix_refl _) hkept)
    rw [remains_self]
    rcases hchild with ⟨r, hpr, -, hr⟩ | ⟨r, hnr, hr⟩
    · exact ⟨r, hpr, hr⟩
    · exact ⟨r, Paths.below_of_child hnr, hr⟩
  refine ⟨fun q hpq hq => ?_, fun q hq => ?_, h.zero, h.length⟩
  · rcases Paths.below_iff.mp hpq with rfl | ⟨m, hm⟩
    · exact absurd hself hq
    · by_contra hsome
      have hm' := Tree.get_of_below hm (h.sub hsome)
      exact hsome (h.gone m (Tree.mem_names.mpr hm') q hm hq)
  · exact h.same q (hq.imp_left fun hpq m _ hm => hpq (Paths.below_of_child hm))

/-- All children are gone, and the directory goes too. -/
theorem Clearing.clear (h : Clearing spared t p (t.names p) count s)
    (hp : ¬ SparedAt spared t p) (hempty : s.names p = [])
    (hs' : ∀ q, s'.get q = if q = p then none else s.get q)
    (hlength : s'.paths.length + 1 = s.paths.length) : Cleared spared t p (count + 1) s' := by
  have hnone := Tree.names_eq_nil.mp hempty
  have hkept : ∀ q, p <:+ q → ¬ Remains spared t p q := by
    -- A spared path lies below a child, which would still be there.
    have hall : ∀ r, p <:+ r → ¬ SparedAt spared t r := by
      intro r hpr hr
      rcases Paths.below_iff.mp hpr with rfl | ⟨n, hn⟩
      · exact hp hr
      · have hchild := h.same (n :: p) (.inr (.inr ⟨r, hn, hr⟩))
        rw [hnone n] at hchild
        exact Tree.get_of_below hn hr.get hchild.symm
    rintro q hpq (⟨r, hpr, -, hr⟩ | ⟨r, hqr, hr⟩)
    · exact hall r hpr hr
    · exact hall r (hpq.trans hqr) hr
  refine ⟨fun q hpq _ => ?_, fun q hq => ?_, nofun, ?_⟩
  · rw [hs']
    split_ifs with hqp
    · rfl
    · obtain ⟨m, hm⟩ := (Paths.below_iff.mp hpq).resolve_left hqp
      by_contra hsome
      exact Tree.get_of_below hm hsome (hnone m)
  · have hpq : ¬ p <:+ q := hq.elim id fun hq hpq => hkept q hpq hq
    have hqp : q ≠ p := fun hqp => hpq (hqp ▸ List.suffix_refl _)
    rw [hs', if_neg hqp]
    exact h.same q (.inl fun m _ hm => hpq (Paths.below_of_child hm))
  · have hbefore := h.length
    omega

/-- What `removal` does, with a bound that the tree below the path does not reach. -/
theorem triple_removal (spared : Path → Kind → Bool) (fuel : ℕ) (t : Tree) (p : Path)
    (hpos : 0 < fuel)
    (hfuel : ∀ q, p <:+ q → t.get q ≠ none → q.length < fuel + p.length) :
    Triple (fun s => s = t) (removal spared fuel p) (Cleared spared t p) (fun _ => False) := by
  induction fuel generalizing t p with
  | zero => cases hpos
  | succ fuel ih =>
      refine triple_get_bind fun s hs => ?_
      rw [hs]
      split
      · rename_i hinspect
        have hnone : t.get p = none := by simpa [inspect] using hinspect
        refine triple_pure fun u hu => ?_
        rw [hu]
        exact cleared_absent hnone
      · rename_i entry hinspect
        obtain ⟨node, hnode, rfl⟩ := Option.map_eq_some_iff.mp hinspect
        have hsome : t.get p ≠ none := by
          rw [hnode]
          exact Option.some_ne_none node
        rw [node.kind_entry]
        split_ifs with hspared hkind
        · refine triple_pure fun u hu => ?_
          rw [hu]
          exact cleared_spared ⟨node, hnode, hspared⟩
        · have hp := not_sparedAt hnode hspared
          obtain ⟨mode, rfl⟩ := Node.eq_directory hkind
          refine triple_bind_run (run_scan hnode) ?_
          refine Triple.bind (R := Clearing spared t p (t.names p)) ?_ fun count => ?_
          · have hloop := triple_foldlM (l := entriesOf t p) (E := fun _ => False)
              (I := fun done => Clearing spared t p (done.map Prod.fst))
              (f := fun count item => do return count + (← removal spared fuel (item.1 :: p)))
              ?_ 0
            · rw [← keys_entriesOf]
              exact hloop.mono (fun s hs => hs ▸ clearing_nil) (fun _ _ h => h) fun _ h => h
            · intro done item rest hl count
              refine triple_of_forall fun s hs => ?_
              have hnodup := nodup_entriesOf t p
              rw [hl, List.map_append, List.map_cons] at hnodup
              have hn : item.1 ∉ done.map Prod.fst := fun hmem =>
                (List.disjoint_of_nodup_append hnodup) hmem List.mem_cons_self
              have hitem : item.1 ∈ t.names p := by
                rw [← keys_entriesOf, hl]
                simp
              have hlength := hfuel (item.1 :: p) (List.suffix_cons _ _) (Tree.mem_names.mp hitem)
              rw [List.length_cons] at hlength
              refine (ih s (item.1 :: p) (by omega) fun q hq hget => ?_).bind fun k =>
                triple_pure fun s' hs' => ?_
              · have hq' := hfuel q (Paths.below_of_child hq) (hs.sub hget)
                rw [List.length_cons]
                omega
              · rw [List.map_append]
                exact hs.child hp hn hs'
          · refine triple_of_forall fun s hs => ?_
            have hsame : s.get p = some (.directory mode) := by
              rw [hs.same p (.inl fun m _ => Paths.not_child_below m p), hnode]
            refine triple_bind_run (run_scan hsame) ?_
            have hempty : (entriesOf s p).isEmpty = true ↔ s.names p = [] := by
              rw [List.isEmpty_iff, ← keys_entriesOf, List.map_eq_nil_iff]
            split_ifs with hleft
            · refine (triple_discard (hempty.mp hleft) (by simp [hsame])).bind fun _ =>
                triple_pure fun s' hs' => ?_
              exact hs.clear hp (hempty.mp hleft) hs'.1 hs'.2
            · exact triple_pure fun s' hs' => hs' ▸ hs.keep (hempty.not.mp hleft)
        · refine (triple_discard ?_ hsome).bind fun _ => triple_pure fun s' hs' => ?_
          · refine Tree.names_eq_nil.mpr fun n => ?_
            exact Tree.get_below_eq_none hnode hkind (List.suffix_cons n p) (List.cons_ne_self n p)
          · exact cleared_leaf hnode hkind (not_sparedAt hnode hspared) hs'.1 hs'.2

/-- Only what the test says of the entries that are there matters. -/
theorem run_removal_congr {spared' : Path → Kind → Bool} {fuel : ℕ} (hpos : 0 < fuel)
    (hfuel : ∀ q, p <:+ q → t.get q ≠ none → q.length < fuel + p.length)
    (h : ∀ q kind, p <:+ q → t.get q ≠ none → spared q kind = spared' q kind) :
    (removal spared fuel p).run t = (removal spared' fuel p).run t := by
  induction fuel generalizing t p with
  | zero => cases hpos
  | succ fuel ih =>
      have hget {f : Tree → Call ℕ} : (get >>= f).run t = (f t).run t := rfl
      rw [removal, removal, hget, hget]
      cases hinspect : inspect t p with
      | none => rfl
      | some entry =>
          dsimp only
          obtain ⟨node, hnode, rfl⟩ := Option.map_eq_some_iff.mp hinspect
          have hsome : t.get p ≠ none := by
            rw [hnode]
            exact Option.some_ne_none node
          rw [h p _ (List.suffix_refl p) hsome, node.kind_entry]
          by_cases hspared : spared' p node.kind = true
          · rw [if_pos hspared, if_pos hspared]
          · rw [if_neg hspared, if_neg hspared]
            by_cases hkind : node.kind = .directory
            · obtain ⟨mode, rfl⟩ := Node.eq_directory hkind
              rw [if_pos hkind, if_pos hkind, run_bind_ok (run_scan hnode),
                run_bind_ok (run_scan hnode), EStateM.run_bind, EStateM.run_bind]
              have hshorter (item : Name × Entry) (hitem : item ∈ entriesOf t p) (s : Tree)
                  (hs : ∀ q, s.get q ≠ none → t.get q ≠ none) :
                  0 < fuel ∧ ∀ q, (item.1 :: p) <:+ q → s.get q ≠ none →
                    q.length < fuel + (item.1 :: p).length := by
                have hname : item.1 ∈ t.names p := by
                  rw [← keys_entriesOf]
                  exact List.mem_map_of_mem hitem
                have hchild := hfuel (item.1 :: p) (List.suffix_cons _ _) (Tree.mem_names.mp hname)
                rw [List.length_cons] at hchild ⊢
                refine ⟨by omega, fun q hq hget => ?_⟩
                have hlength := hfuel q (Paths.below_of_child hq) (hs q hget)
                omega
              rw [run_foldlM_congr (I := fun s => ∀ q, s.get q ≠ none → t.get q ≠ none)
                (fun item hitem count s hs => ?_) (fun item hitem count => ?_) 0 fun _ => id]
              · obtain ⟨hpos', hfuel'⟩ := hshorter item hitem s hs
                have hsame : (removal spared fuel (item.1 :: p)).run s =
                    (removal spared' fuel (item.1 :: p)).run s :=
                  ih hpos' hfuel' fun q kind hq hget =>
                    h q kind (Paths.below_of_child hq) (hs q hget)
                rw [EStateM.run_bind, EStateM.run_bind, hsame]
              · refine triple_of_forall fun s hs => ?_
                obtain ⟨hpos', hfuel'⟩ := hshorter item hitem s hs
                refine ((triple_removal spared fuel s _ hpos' hfuel').mono (fun _ h => h)
                  (fun _ _ h => h) fun _ _ => trivial).bind fun k => ?_
                exact triple_pure fun s' hs' q hq => hs q (hs'.sub hq)
            · rw [if_neg hkind, if_neg hkind]

end Rsync

end Rmote
