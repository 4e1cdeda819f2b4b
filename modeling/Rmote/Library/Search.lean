import Mathlib.Data.List.Nodup
import Rmote.Library.Recorded

/-!
# A search that records groups

A graph is explored through references. A new node is recorded together with a group of
objects, and its own references are followed in order, depth first, with one record for the
whole search. A node that another one recorded with its group is not looked at. The search
fails with the first failure that it meets, and it ends on every finite graph.
-/

namespace Search

/-- A reference leads to a node, to nothing, or it fails. A look at a node gives the objects
that are recorded with it and its references, or it fails. -/
structure Graph (α β ε : Type*) where
  resolve : β → Except ε (Option α)
  look : α → Except ε (List α × List β)

/-- The new nodes of a search in the order in which they were met, and the record. Without an
error the search went too deep. -/
abbrev Result (α ε : Type*) := Except (Option ε) (List α × List α)

variable {α β ε : Type*}

/-- Follow references one after the other. -/
def all (visit : β → List α → Result α ε) : List β → List α → Result α ε
  | [], seen => .ok ([], seen)
  | b :: bs, seen =>
      match visit b seen with
      | .error e => .error e
      | .ok (nodes, seen) =>
          match all visit bs seen with
          | .error e => .error e
          | .ok (rest, seen) => .ok (nodes ++ rest, seen)

theorem all_append (visit : β → List α → Result α ε) (as bs : List β) (seen : List α) :
    all visit (as ++ bs) seen =
      match all visit as seen with
      | .error e => .error e
      | .ok (nodes, seen) =>
          match all visit bs seen with
          | .error e => .error e
          | .ok (rest, seen) => .ok (nodes ++ rest, seen) := by
  induction as generalizing seen with
  | nil =>
      simp only [List.nil_append, all]
      cases all visit bs seen <;> rfl
  | cons a as ih =>
      rw [List.cons_append, all, all]
      cases visit a seen with
      | error e => rfl
      | ok head =>
          obtain ⟨nodes, seen₁⟩ := head
          simp only [ih]
          cases all visit as seen₁ with
          | error e => rfl
          | ok middle =>
              obtain ⟨rest, seen₂⟩ := middle
              simp only
              cases all visit bs seen₂ with
              | error e => rfl
              | ok last => simp only [List.append_assoc]

theorem all_singleton (visit : β → List α → Result α ε) (b : β) (seen : List α) :
    all visit [b] seen = visit b seen := by
  rw [all]
  cases visit b seen with
  | error e => rfl
  | ok result => simp only [all, List.append_nil]

namespace Graph

variable [DecidableEq α]

/-- Follow one reference, at most so deep. -/
def explore (G : Graph α β ε) : ℕ → β → List α → Result α ε
  | 0, _, _ => .error none
  | depth + 1, b, seen =>
      match G.resolve b with
      | .error e => .error (some e)
      | .ok none => .ok ([], seen)
      | .ok (some a) =>
          if a ∈ seen then
            .ok ([], seen)
          else
            match G.look a with
            | .error e => .error (some e)
            | .ok (group, parts) =>
                match all (G.explore depth) parts (a :: (group ++ seen)) with
                | .error e => .error e
                | .ok (nodes, seen) => .ok (a :: nodes, seen)

omit [DecidableEq α] in
/-- A reference leads to a node through the nodes between. -/
inductive Leads (G : Graph α β ε) (b : β) : α → Prop where
  | here {a : α} (hresolve : G.resolve b = .ok (some a)) : Leads G b a
  | next {a a' : α} {group : List α} {parts : List β} {b' : β} (hleads : Leads G b a)
      (hlook : G.look a = .ok (group, parts)) (hpart : b' ∈ parts)
      (hresolve : G.resolve b' = .ok (some a')) : Leads G b a'

/-- A reference fails, or a node that it leads to does. -/
def Fails (G : Graph α β ε) (b : β) (e : ε) : Prop :=
  G.resolve b = .error e ∨ ∃ a, G.Leads b a ∧
    (G.look a = .error e ∨ ∃ group parts b', G.look a = .ok (group, parts) ∧ b' ∈ parts ∧
      G.resolve b' = .error e)

/-- The object is recorded when the node is new. -/
def Records (G : Graph α β ε) (a x : α) : Prop :=
  x = a ∨ ∃ group parts, G.look a = .ok (group, parts) ∧ x ∈ group

/-- Everything that a node refers to is recorded. -/
def Covers (G : Graph α β ε) (seen : List α) (bs : List β) : Prop :=
  ∀ b ∈ bs, ∃ target, G.resolve b = .ok target ∧ ∀ a, target = some a → a ∈ seen

/-- What a search found: the record grew by the new nodes and their groups, the nodes were
new, the references lead to them, and whatever they refer to is recorded. -/
structure Found (G : Graph α β ε) (bs : List β) (seen nodes seen' : List α) : Prop where
  record : ∀ x, x ∈ seen' ↔ x ∈ seen ∨ ∃ a ∈ nodes, G.Records a x
  fresh : ∀ a ∈ nodes, a ∉ seen
  once : nodes.Nodup
  leads : ∀ a ∈ nodes, ∃ b ∈ bs, G.Leads b a
  closed : ∀ a ∈ nodes, ∃ group parts, G.look a = .ok (group, parts) ∧ G.Covers seen' parts
  started : G.Covers seen' bs

variable {G : Graph α β ε} {b : β} {bs : List β} {a : α} {seen seen' seen'' nodes rest : List α}

omit [DecidableEq α] in
theorem Leads.prepend {a : α} {group : List α} {parts : List β} {b' : β} {x : α}
    (hresolve : G.resolve b = .ok (some a)) (hlook : G.look a = .ok (group, parts))
    (hpart : b' ∈ parts) (h : G.Leads b' x) : G.Leads b x := by
  induction h with
  | here hx => exact .next (.here hresolve) hlook hpart hx
  | next _ hlook' hpart' hresolve' ih => exact .next ih hlook' hpart' hresolve'

omit [DecidableEq α] in
theorem Covers.mono (h : G.Covers seen bs) (hsub : seen ⊆ seen') : G.Covers seen' bs := by
  intro b hb
  obtain ⟨target, htarget, hseen⟩ := h b hb
  exact ⟨target, htarget, fun a ha => hsub (hseen a ha)⟩

omit [DecidableEq α] in
theorem Found.subset (h : G.Found bs seen nodes seen') : seen ⊆ seen' :=
  fun x hx => (h.record x).mpr (.inl hx)

omit [DecidableEq α] in
theorem Found.mem (h : G.Found bs seen nodes seen') (ha : a ∈ nodes) : a ∈ seen' :=
  (h.record a).mpr (.inr ⟨a, ha, .inl rfl⟩)

theorem explore_congr {b' : β} (h : G.resolve b = G.resolve b') (depth : ℕ) (seen : List α) :
    G.explore (depth + 1) b seen = G.explore (depth + 1) b' seen := by
  rw [explore, explore, h]

omit [DecidableEq α] in
theorem found_nothing (hcovers : G.Covers seen bs) : G.Found bs seen [] seen :=
  ⟨fun x => by simp, fun _ h => absurd h List.not_mem_nil, List.nodup_nil,
    fun _ h => absurd h List.not_mem_nil, fun _ h => absurd h List.not_mem_nil, hcovers⟩

omit [DecidableEq α] in
/-- One search after another. -/
theorem Found.append {bs' : List β} (h : G.Found bs seen nodes seen')
    (h' : G.Found bs' seen' rest seen'') : G.Found (bs ++ bs') seen (nodes ++ rest) seen'' where
  record x := by
    rw [h'.record, h.record, or_assoc]
    simp only [List.mem_append, or_and_right, exists_or]
  fresh a ha := by
    rcases List.mem_append.mp ha with ha | ha
    · exact h.fresh a ha
    · exact fun hseen => h'.fresh a ha (h.subset hseen)
  once := List.nodup_append.mpr ⟨h.once, h'.once, fun a ha a' ha' heq =>
    h'.fresh a' ha' (heq ▸ h.mem ha)⟩
  leads a ha := by
    rcases List.mem_append.mp ha with ha | ha
    · obtain ⟨b, hb, hleads⟩ := h.leads a ha
      exact ⟨b, List.mem_append_left _ hb, hleads⟩
    · obtain ⟨b, hb, hleads⟩ := h'.leads a ha
      exact ⟨b, List.mem_append_right _ hb, hleads⟩
  closed a ha := by
    rcases List.mem_append.mp ha with ha | ha
    · obtain ⟨group, parts, hlook, hcovers⟩ := h.closed a ha
      exact ⟨group, parts, hlook, hcovers.mono h'.subset⟩
    · exact h'.closed a ha
  started b hb := by
    rcases List.mem_append.mp hb with hb | hb
    · exact (h.started.mono h'.subset) b hb
    · exact h'.started b hb

omit [DecidableEq α] in
/-- A new node, and the search of its parts. -/
theorem Found.node {group : List α} {parts : List β} (hresolve : G.resolve b = .ok (some a))
    (hnew : a ∉ seen) (hlook : G.look a = .ok (group, parts))
    (h : G.Found parts (a :: (group ++ seen)) nodes seen') :
    G.Found [b] seen (a :: nodes) seen' where
  record x := by
    have hrecords : G.Records a x ↔ x = a ∨ x ∈ group := by
      constructor
      · rintro (rfl | ⟨group', parts', hlook', hx⟩)
        · exact .inl rfl
        · rw [hlook] at hlook'
          obtain ⟨rfl, -⟩ := Prod.mk.inj (Except.ok.inj hlook')
          exact .inr hx
      · rintro (rfl | hx)
        · exact .inl rfl
        · exact .inr ⟨group, parts, hlook, hx⟩
    rw [h.record]
    simp only [List.mem_cons, List.mem_append, exists_eq_or_imp, hrecords]
    tauto
  fresh x hx := by
    rcases List.mem_cons.mp hx with rfl | hx
    · exact hnew
    · exact fun hseen => h.fresh x hx (List.mem_cons_of_mem a (List.mem_append_right group hseen))
  once := List.nodup_cons.mpr ⟨fun ha => h.fresh a ha List.mem_cons_self, h.once⟩
  leads x hx := by
    refine ⟨b, List.mem_singleton.mpr rfl, ?_⟩
    rcases List.mem_cons.mp hx with rfl | hx
    · exact .here hresolve
    · obtain ⟨b', hb', hleads⟩ := h.leads x hx
      exact hleads.prepend hresolve hlook hb'
  closed x hx := by
    rcases List.mem_cons.mp hx with rfl | hx
    · exact ⟨group, parts, hlook, h.started⟩
    · exact h.closed x hx
  started b' hb' := by
    obtain rfl := List.mem_singleton.mp hb'
    refine ⟨some a, hresolve, fun a' ha' => ?_⟩
    obtain rfl := Option.some.inj ha'
    exact h.subset List.mem_cons_self

omit [DecidableEq α] in
theorem found_all {visit : β → List α → Result α ε}
    (hvisit : ∀ b seen nodes seen', visit b seen = .ok (nodes, seen') →
      G.Found [b] seen nodes seen') :
    ∀ {bs : List β} {seen nodes seen' : List α}, all visit bs seen = .ok (nodes, seen') →
      G.Found bs seen nodes seen' := by
  intro bs
  induction bs with
  | nil =>
      intro seen nodes seen' h
      cases h
      exact found_nothing fun _ hb => absurd hb List.not_mem_nil
  | cons b bs ih =>
      intro seen nodes seen' h
      rw [all] at h
      split at h
      · cases h
      · rename_i nodes₁ seen₁ hhead
        split at h
        · cases h
        · rename_i rest seen₂ hrest
          cases h
          exact (hvisit b seen nodes₁ seen₁ hhead).append (ih hrest)

/-- A search that ends found what it gives. -/
theorem found_explore (G : Graph α β ε) (depth : ℕ) :
    ∀ b seen nodes seen', G.explore depth b seen = .ok (nodes, seen') →
      G.Found [b] seen nodes seen' := by
  induction depth with
  | zero =>
      intro b seen nodes seen' h
      cases h
  | succ depth ih =>
      intro b seen nodes seen' h
      rw [explore] at h
      split at h
      · cases h
      · rename_i hresolve
        cases h
        refine found_nothing fun b' hb' => ?_
        obtain rfl := List.mem_singleton.mp hb'
        exact ⟨none, hresolve, fun a ha => by cases ha⟩
      · rename_i a hresolve
        split_ifs at h with hseen
        · cases h
          refine found_nothing fun b' hb' => ?_
          obtain rfl := List.mem_singleton.mp hb'
          exact ⟨some a, hresolve, fun a' ha' => Option.some.inj ha' ▸ hseen⟩
        · split at h
          · cases h
          · rename_i group parts hlook
            split at h
            · cases h
            · rename_i nodes' seen'' hall
              cases h
              exact (found_all ih hall).node hresolve hseen hlook

omit [DecidableEq α] in
theorem fails_all {visit : β → List α → Result α ε} {e : ε}
    (hvisit : ∀ b seen, visit b seen = .error (some e) → G.Fails b e) :
    ∀ {bs : List β} {seen : List α}, all visit bs seen = .error (some e) →
      ∃ b ∈ bs, G.Fails b e := by
  intro bs
  induction bs with
  | nil =>
      intro seen h
      cases h
  | cons b bs ih =>
      intro seen h
      rw [all] at h
      split at h
      · rename_i hhead
        cases h
        exact ⟨b, List.mem_cons_self, hvisit b seen hhead⟩
      · split at h
        · rename_i hrest
          cases h
          obtain ⟨b', hb', hfails⟩ := ih hrest
          exact ⟨b', List.mem_cons_of_mem b hb', hfails⟩
        · cases h

omit [DecidableEq α] in
theorem Fails.prepend {e : ε} {group : List α} {parts : List β} {b' : β}
    (hresolve : G.resolve b = .ok (some a)) (hlook : G.look a = .ok (group, parts))
    (hpart : b' ∈ parts) (h : G.Fails b' e) : G.Fails b e := by
  rcases h with hfail | ⟨x, hleads, hx⟩
  · exact .inr ⟨a, .here hresolve, .inr ⟨group, parts, b', hlook, hpart, hfail⟩⟩
  · exact .inr ⟨x, hleads.prepend hresolve hlook hpart, hx⟩

/-- A search fails only with a failure of what it is led to. -/
theorem fails_explore (G : Graph α β ε) {e : ε} (depth : ℕ) :
    ∀ b seen, G.explore depth b seen = .error (some e) → G.Fails b e := by
  induction depth with
  | zero =>
      intro b seen h
      cases h
  | succ depth ih =>
      intro b seen h
      rw [explore] at h
      split at h
      · rename_i hresolve
        cases h
        exact .inl hresolve
      · cases h
      · rename_i a hresolve
        split_ifs at h
        split at h
        · rename_i hlook
          cases h
          exact .inr ⟨a, .here hresolve, .inl hlook⟩
        · rename_i group parts hlook
          split at h
          · rename_i hall
            cases h
            obtain ⟨b', hb', hfails⟩ := fails_all ih hall
            exact hfails.prepend hresolve hlook hb'
          · cases h

/-! ## The depth -/

theorem unrecorded_mono {objects : Finset α} (h : seen ⊆ seen') :
    Recorded.unrecorded objects seen' ≤ Recorded.unrecorded objects seen := by
  refine Finset.card_le_card fun x hx => ?_
  obtain ⟨hobject, hnot⟩ := Finset.mem_filter.mp hx
  exact Finset.mem_filter.mpr ⟨hobject, fun hseen => hnot (h hseen)⟩

theorem all_ne_none {objects : Finset α} {visit : β → List α → Result α ε} {depth : ℕ}
    (hvisit : ∀ b seen, Recorded.unrecorded objects seen < depth → visit b seen ≠ .error none)
    (hfound : ∀ b seen nodes seen', visit b seen = .ok (nodes, seen') → seen ⊆ seen') :
    ∀ {bs : List β} {seen : List α}, Recorded.unrecorded objects seen < depth →
      all visit bs seen ≠ .error none := by
  intro bs
  induction bs with
  | nil =>
      intro seen _ h
      cases h
  | cons b bs ih =>
      intro seen hdepth h
      rw [all] at h
      split at h
      · rename_i hhead
        cases h
        exact hvisit b seen hdepth hhead
      · rename_i nodes seen' hhead
        split at h
        · rename_i hrest
          cases h
          exact ih ((unrecorded_mono (hfound b seen nodes seen' hhead)).trans_lt hdepth) hrest
        · cases h

/-- On a finite graph the depth is bounded by the nodes that are not recorded. -/
theorem explore_ne_none {objects : Finset α}
    (hobjects : ∀ b a, G.resolve b = .ok (some a) → a ∈ objects) (depth : ℕ) :
    ∀ b seen, Recorded.unrecorded objects seen < depth → G.explore depth b seen ≠ .error none := by
  induction depth with
  | zero => exact fun _ _ h => absurd h (Nat.not_lt_zero _)
  | succ depth ih =>
      intro b seen hdepth h
      rw [explore] at h
      split at h
      · cases h
      · cases h
      · rename_i a hresolve
        split_ifs at h with hseen
        split at h
        · cases h
        · rename_i group parts hlook
          split at h
          · rename_i hall
            cases h
            have hsub : a :: seen ⊆ a :: (group ++ seen) :=
              List.cons_subset_cons a (List.subset_append_right group seen)
            have hless : Recorded.unrecorded objects (a :: (group ++ seen)) < depth := by
              have hone := Recorded.unrecorded_cons (hobjects b a hresolve) hseen
              have hmono : Recorded.unrecorded objects (a :: (group ++ seen)) ≤
                  Recorded.unrecorded objects (a :: seen) := unrecorded_mono hsub
              omega
            exact all_ne_none ih (fun b seen nodes seen' hok =>
              (G.found_explore depth b seen nodes seen' hok).subset) hless hall
          · cases h

omit [DecidableEq α] in
/-- Where no node lies in the group of another, a search with an empty record finds exactly
the nodes that the references lead to. -/
theorem Found.mem_iff (h : G.Found bs [] nodes seen')
    (hapart : ∀ a a' group parts, (∃ b ∈ bs, G.Leads b a) → (∃ b ∈ bs, G.Leads b a') →
      G.look a = .ok (group, parts) → a' ∈ group → a' = a) (x : α) :
    x ∈ nodes ↔ ∃ b ∈ bs, G.Leads b x := by
  have hnode : ∀ {x}, (∃ b ∈ bs, G.Leads b x) → x ∈ seen' → x ∈ nodes := by
    intro x hleads hx
    rcases (h.record x).mp hx with hx | ⟨a, ha, rfl | ⟨group, parts, hlook, hmem⟩⟩
    · exact absurd hx List.not_mem_nil
    · exact ha
    · rw [hapart a x group parts (h.leads a ha) hleads hlook hmem]
      exact ha
  constructor
  · exact h.leads x
  · rintro ⟨b, hb, hleads⟩
    induction hleads with
    | here hresolve =>
        obtain ⟨target, htarget, hseen⟩ := h.started b hb
        rw [hresolve] at htarget
        exact hnode ⟨b, hb, .here hresolve⟩ (hseen _ (Except.ok.inj htarget).symm)
    | next hleads hlook hpart hresolve ih =>
        obtain ⟨group, parts, hlook', hcovers⟩ := h.closed _ ih
        rw [hlook] at hlook'
        obtain ⟨rfl, rfl⟩ := Prod.mk.inj (Except.ok.inj hlook')
        obtain ⟨target, htarget, hseen⟩ := hcovers _ hpart
        rw [hresolve] at htarget
        exact hnode ⟨b, hb, .next hleads hlook hpart hresolve⟩
          (hseen _ (Except.ok.inj htarget).symm)

end Graph

end Search
