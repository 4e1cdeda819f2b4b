import Rmote.Rsync.Transfer

/-!
# What a synchronization is for

An entry is protected when it, or an entry above it, is excluded on either side by its own kind.
The other entries of the source are selected: they are what the destination is to get. `first` is
the destination after the first pass, path by path, and `Partial` what a path may name until then.
Nothing of the destination is lost on the way, and what is in its place stays there.
-/

namespace Rmote

namespace Rsync

/-- The path, or one above it, is excluded on either side by its own kind. -/
def Protected (patterns : List String) (src dst : Tree) (p : Path) : Prop :=
  ∃ q, q ≠ [] ∧ q <:+ p ∧ (ExcludedAt patterns src q ∨ ExcludedAt patterns dst q)

section Protected

variable {patterns : List String} {src dst : Tree} {n : Name} {p q : Path}

theorem not_protected_root : ¬ Protected patterns src dst [] := by
  rintro ⟨q, hne, hq, -⟩
  exact hne (List.suffix_nil.mp hq)

theorem Protected.below (h : Protected patterns src dst p) (hpq : p <:+ q) :
    Protected patterns src dst q := by
  obtain ⟨r, hne, hr, hexcluded⟩ := h
  exact ⟨r, hne, hr.trans hpq, hexcluded⟩

theorem protected_cons : Protected patterns src dst (n :: p) ↔
    (ExcludedAt patterns src (n :: p) ∨ ExcludedAt patterns dst (n :: p)) ∨
      Protected patterns src dst p := by
  constructor
  · rintro ⟨q, hne, hq, hexcluded⟩
    rcases List.suffix_cons_iff.mp hq with rfl | hq
    · exact .inl hexcluded
    · exact .inr ⟨q, hne, hq, hexcluded⟩
  · rintro (hexcluded | h)
    · exact ⟨n :: p, List.cons_ne_nil _ _, List.suffix_refl _, hexcluded⟩
    · exact h.below (List.suffix_cons n p)

end Protected

/-- The mode of an old node, or that of a new one. -/
def oldMode (new : ℕ) : Option Node → ℕ
  | some node => node.entry.mode
  | none => new

/-- What the first pass puts in the place of an old node. -/
def placed (o : Options) (old : Option Node) : Node → Node
  | .directory _ => .directory (oldMode 0o700 old)
  | .file content mode => .file content (if o.preserveMode then mode else oldMode 0o600 old)
  | .symlink target => .symlink target
  | .special mode => .special mode

@[simp] theorem kind_placed (o : Options) (old : Option Node) (node : Node) :
    (placed o old node).kind = node.kind := by
  cases node <;> rfl

variable (j : Job) (dst : Tree)

/-- The entry of the source is to be transferred. -/
def Selected (p : Path) : Prop :=
  j.src.get p ≠ none ∧ ¬ Protected j.opts.exclude j.src dst p

open Classical in
/-- The destination after the first pass. -/
noncomputable def first (p : Path) : Option Node :=
  if Selected j dst p then (j.src.get p).map (placed j.opts (dst.get p)) else dst.get p

/-- The two sides do not name different kinds of things. -/
def SameKind (p : Path) : Prop :=
  ∀ node node', j.src.get p = some node → dst.get p = some node' → node'.kind = node.kind

/-- What a path may name during the first pass. -/
inductive Partial (p : Path) : Option Node → Prop where
  | before : Partial p (dst.get p)
  | after (hselected : Selected j dst p) (hkind : SameKind j dst p) : Partial p (first j dst p)
  /-- The content is there, but not the mode. -/
  | between (hselected : Selected j dst p) (hkind : SameKind j dst p) (content : Bytes) (mode : ℕ)
      (hsrc : j.src.get p = some (.file content mode)) :
      Partial p (some (.file content (oldMode 0o600 (dst.get p))))

/-- A file has the mode of the source. -/
def HasMode (t : Tree) (p : Path) : Prop :=
  ∀ content mode, j.src.get p = some (.file content mode) →
    ∃ content', t.get p = some (.file content' mode)

/-- What a step of the first pass does to the tree. -/
def Advance (t t' : Tree) : Prop :=
  ∀ q, t'.get q = t.get q ∨
    (Partial j dst q (t'.get q) ∧ (t.get q = first j dst q → t'.get q = first j dst q) ∧
      (HasMode j t q → HasMode j t' q))

variable {j dst} {t t' : Tree} {n : Name} {p q : Path} {node : Node} {x : Option Node}

theorem Selected.parent (h : Selected j dst (n :: p)) :
    Selected j dst p ∧ ∃ mode, j.src.get p = some (.directory mode) := by
  obtain ⟨mode, hmode⟩ := Tree.parent h.1
  refine ⟨⟨by rw [hmode]; nofun, fun hprotected => h.2 ?_⟩, mode, hmode⟩
  exact hprotected.below (List.suffix_cons n p)

theorem Selected.above (h : Selected j dst q) (hpq : p <:+ q) : Selected j dst p :=
  ⟨Tree.get_of_below hpq h.1, fun hprotected => h.2 (hprotected.below hpq)⟩

theorem first_of_selected (h : Selected j dst p) (hsrc : j.src.get p = some node) :
    first j dst p = some (placed j.opts (dst.get p) node) := by
  rw [first, if_pos h, hsrc]
  rfl

theorem first_of_not_selected (h : ¬ Selected j dst p) : first j dst p = dst.get p := if_neg h

/-- A selected entry is not excluded once it is in its place. -/
theorem Selected.not_excluded (h : Selected j dst p) (hne : p ≠ [])
    (hsrc : j.src.get p = some node) : ¬ excluded p node.kind j.opts.exclude = true :=
  fun hexcluded => h.2 ⟨p, hne, List.suffix_refl _, .inl ⟨node, hsrc, hexcluded⟩⟩

theorem Partial.eq_none (h : Partial j dst p x) (hx : x = none) : dst.get p = none := by
  cases h with
  | before => exact hx
  | after hselected _ =>
      obtain ⟨node, hnode⟩ := Option.ne_none_iff_exists'.mp hselected.1
      rw [first_of_selected hselected hnode] at hx
      cases hx
  | between _ _ _ _ _ => cases hx

/-- Nothing is lost, and nothing changes its kind. -/
theorem Partial.keeps (h : Partial j dst p x) (hnode : dst.get p = some node) :
    ∃ node', x = some node' ∧ node'.kind = node.kind ∧
      (¬ Selected j dst p ∨ node.kind = .directory → node' = node) := by
  cases h with
  | before => exact ⟨node, hnode, rfl, fun _ => rfl⟩
  | after hselected hkind =>
      obtain ⟨s, hs⟩ := Option.ne_none_iff_exists'.mp hselected.1
      have hsame := hkind s node hs hnode
      refine ⟨_, first_of_selected hselected hs, by rw [kind_placed, hsame], ?_⟩
      rintro (hnot | hdirectory)
      · exact absurd hselected hnot
      · obtain ⟨mode, rfl⟩ := Node.eq_directory (hsame.symm.trans hdirectory)
        obtain ⟨mode', rfl⟩ := Node.eq_directory hdirectory
        rw [hnode]
        rfl
  | between hselected hkind content mode hsrc =>
      have hsame := hkind _ node hsrc hnode
      refine ⟨_, rfl, hsame.symm, ?_⟩
      rintro (hnot | hdirectory)
      · exact absurd hselected hnot
      · rw [hsame] at hdirectory
        cases hdirectory

/-- An old entry with which the source agrees, or the entry of the source. -/
theorem Partial.kind_of_some (h : Partial j dst p x) (hx : x = some node) :
    dst.get p = some node ∨
      (Selected j dst p ∧ SameKind j dst p ∧ ∃ s, j.src.get p = some s ∧ node.kind = s.kind) := by
  cases h with
  | before => exact .inl hx
  | after hselected hkind =>
      obtain ⟨s, hs⟩ := Option.ne_none_iff_exists'.mp hselected.1
      rw [first_of_selected hselected hs] at hx
      refine .inr ⟨hselected, hkind, s, hs, ?_⟩
      rw [← Option.some.inj hx, kind_placed]
  | between hselected hkind content mode hsrc =>
      refine .inr ⟨hselected, hkind, _, hsrc, ?_⟩
      rw [← Option.some.inj hx]
      rfl

theorem Advance.refl (t : Tree) : Advance j dst t t := fun _ => .inl rfl

theorem Advance.trans {t'' : Tree} (h : Advance j dst t t') (h' : Advance j dst t' t'') :
    Advance j dst t t'' := by
  intro q
  rcases h' q with hsame' | ⟨hhalfway', hfirst', hmode'⟩
  · rcases h q with hsame | ⟨hhalfway, hfirst, hmode⟩
    · exact .inl (hsame'.trans hsame)
    · refine .inr ⟨hsame' ▸ hhalfway, fun hq => hsame'.trans (hfirst hq), fun hq => ?_⟩
      intro content mode hsrc
      rw [hsame']
      exact hmode hq content mode hsrc
  · rcases h q with hsame | ⟨-, hfirst, hmode⟩
    · refine .inr ⟨hhalfway', fun hq => hfirst' (hsame.trans hq), fun hq => hmode' ?_⟩
      intro content mode hsrc
      rw [hsame]
      exact hq content mode hsrc
    · exact .inr ⟨hhalfway', fun hq => hfirst' (hfirst hq), fun hq => hmode' (hmode hq)⟩

/-- One node is put in its place. -/
theorem advance_put (hput : t.put p node = some t') (hhalfway : Partial j dst p (some node))
    (hfirst : t.get p = first j dst p → some node = first j dst p)
    (hmode : HasMode j t p → HasMode j t' p) : Advance j dst t t' := by
  intro q
  rw [Tree.get_put hput]
  split_ifs with hq
  · subst hq
    exact .inr ⟨hhalfway, hfirst, hmode⟩
  · exact .inl rfl

section Scans

variable {item : Name × Entry}

/-- The scans of the two sides tell which names are excluded. -/
theorem shields_iff : shields j p (entriesOf j.src p ++ entriesOf t p) n = true ↔
    ExcludedAt j.opts.exclude j.src (n :: p) ∨ ExcludedAt j.opts.exclude t (n :: p) := by
  have hside : ∀ tree : Tree, (∃ item ∈ entriesOf tree p, item.1 = n ∧
      excluded (n :: p) item.2.kind j.opts.exclude = true) ↔
      ExcludedAt j.opts.exclude tree (n :: p) := by
    intro tree
    constructor
    · rintro ⟨⟨m, entry⟩, hitem, rfl, hexcluded⟩
      obtain ⟨node, hnode, rfl⟩ := mem_entriesOf.mp hitem
      exact ⟨node, hnode, by rw [← node.kind_entry]; exact hexcluded⟩
    · rintro ⟨node, hnode, hexcluded⟩
      refine ⟨(n, node.entry), mem_entriesOf.mpr ⟨node, hnode, rfl⟩, rfl, ?_⟩
      rw [node.kind_entry]
      exact hexcluded
  rw [← hside, ← hside, shields, List.any_append, Bool.or_eq_true, List.any_eq_true,
    List.any_eq_true]
  simp only [Bool.and_eq_true, decide_eq_true_eq]

theorem mem_of_lookup {entries : List (Name × Entry)} {entry : Entry}
    (h : entries.lookup n = some entry) : (n, entry) ∈ entries := by
  obtain ⟨before, after, heq, -⟩ := List.lookup_eq_some_iff.mp h
  rw [heq]
  simp

theorem mem_transferable : item ∈ transferable j p (entriesOf j.src p) (entriesOf t p) ↔
    (∃ node, j.src.get (item.1 :: p) = some node ∧ node.entry = item.2) ∧
      ¬ (ExcludedAt j.opts.exclude j.src (item.1 :: p) ∨
        ExcludedAt j.opts.exclude t (item.1 :: p)) := by
  rw [transferable, List.mem_filter, ← mem_entriesOf, ← shields_iff, Bool.not_eq_true',
    Bool.not_eq_true]

/-- The coordinator compares only what is there. -/
theorem mem_of_comparable (h : item ∈ comparable j p (entriesOf j.src p) (entriesOf t p)) :
    ∃ node, t.get (item.1 :: p) = some node ∧ node.entry = item.2 := by
  unfold comparable at h
  split_ifs at h
  · exact mem_entriesOf.mp h
  · exact mem_entriesOf.mp (List.mem_filter.mp h).1

/-- What is transferred is compared with what is there. -/
theorem lookup_comparable (hnode : t.get (n :: p) = some node)
    (h : ¬ (ExcludedAt j.opts.exclude j.src (n :: p) ∨ ExcludedAt j.opts.exclude t (n :: p))) :
    (comparable j p (entriesOf j.src p) (entriesOf t p)).lookup n = some node.entry := by
  have hmem : (n, node.entry) ∈ comparable j p (entriesOf j.src p) (entriesOf t p) := by
    have hentry := mem_entriesOf.mpr ⟨node, hnode, rfl⟩
    unfold comparable
    split_ifs
    · exact hentry
    · refine List.mem_filter.mpr ⟨hentry, ?_⟩
      rw [Bool.not_eq_true', ← Bool.not_eq_true, shields_iff]
      exact h
  cases hlookup : (comparable j p (entriesOf j.src p) (entriesOf t p)).lookup n with
  | none =>
      have hne := List.lookup_eq_none_iff.mp hlookup _ hmem
      simp at hne
  | some entry =>
      obtain ⟨node', hnode', rfl⟩ := mem_of_comparable (mem_of_lookup hlookup)
      rw [hnode] at hnode'
      cases hnode'
      rfl

/-- The coordinator found no conflict for an item. -/
def Agrees (existing : List (Name × Entry)) (item : Name × Entry) : Prop :=
  item.2.kind ≠ .special ∧ ∀ entry, existing.lookup item.1 = some entry → entry.kind = item.2.kind

/-- What the coordinator knows of a directory after its scans. -/
structure Level (j : Job) (dst : Tree) (p : Path) (entries compared : List (Name × Entry)) :
    Prop where
  selected : ∀ item ∈ entries, Selected j dst (item.1 :: p) ∧
    ∃ node, j.src.get (item.1 :: p) = some node ∧ node.entry = item.2
  complete : ∀ n, Selected j dst (n :: p) → ∃ item ∈ entries, item.1 = n
  kind : ∀ item ∈ entries, Agrees compared item → SameKind j dst (item.1 :: p)

/-- A partial destination tells the same as the old one. -/
theorem level_of_partial (ht : ∀ n, Partial j dst (n :: p) (t.get (n :: p)))
    (hp : Selected j dst p) :
    Level j dst p (transferable j p (entriesOf j.src p) (entriesOf t p))
      (comparable j p (entriesOf j.src p) (entriesOf t p)) := by
  refine ⟨fun item hitem => ?_, fun n hn => ?_, fun item hitem hagrees => ?_⟩
  · obtain ⟨⟨node, hnode, hentry⟩, hfree⟩ := mem_transferable.mp hitem
    refine ⟨⟨by rw [hnode]; nofun, fun hprotected => ?_⟩, node, hnode, hentry⟩
    rcases protected_cons.mp hprotected with (hsrc | hdst) | hparent
    · exact hfree (.inl hsrc)
    · -- An excluded entry of the old destination is still there.
      obtain ⟨old, hold, hexcluded⟩ := hdst
      obtain ⟨new, hnew, hkind, -⟩ := (ht item.1).keeps hold
      exact hfree (.inr ⟨new, hnew, by rw [hkind]; exact hexcluded⟩)
    · exact hp.2 hparent
  · obtain ⟨node, hnode⟩ := Option.ne_none_iff_exists'.mp hn.1
    have hnot := hn.not_excluded (List.cons_ne_nil _ _) hnode
    refine ⟨(n, node.entry), mem_transferable.mpr ⟨⟨node, hnode, rfl⟩, ?_⟩, rfl⟩
    rintro (⟨node', hnode', hexcluded⟩ | ⟨new, hnew, hexcluded⟩)
    · rw [hnode] at hnode'
      cases hnode'
      exact hnot hexcluded
    · rcases (ht n).kind_of_some hnew with hold | ⟨-, -, s, hs, hkind⟩
      · exact hn.2 (protected_cons.mpr (.inl (.inr ⟨new, hold, hexcluded⟩)))
      · rw [hnode] at hs
        cases hs
        rw [hkind] at hexcluded
        exact hnot hexcluded
  · obtain ⟨⟨node, hnode, hentry⟩, hfree⟩ := mem_transferable.mp hitem
    intro s old hs hold
    rw [hnode] at hs
    cases hs
    obtain ⟨new, hnew, hkind, -⟩ := (ht item.1).keeps hold
    have hlookup := hagrees.2 _ (lookup_comparable hnew hfree)
    rw [new.kind_entry, ← hentry, node.kind_entry] at hlookup
    rw [← hkind, hlookup]

end Scans

end Rsync

end Rmote
