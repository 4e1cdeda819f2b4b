import Mathlib.Data.List.Forall2
import Mathlib.Data.List.Nodup

/-!
# Dictionaries that keep the order of their keys

A dictionary is a list of pairs with distinct keys. A new key goes to the end, and a key that is
there keeps its place and gets a new value, so of several pairs with one key the last one wins.
Everything is described through `List.lookup`.
-/

namespace Assoc

variable {α β γ : Type*}

/-- Two dictionaries have the same keys in the same order, with related values. -/
def Related (R : β → γ → Prop) (l : List (α × β)) (m : List (α × γ)) : Prop :=
  List.Forall₂ (fun e f => e.1 = f.1 ∧ R e.2 f.2) l m

theorem Related.keys {R : β → γ → Prop} {l : List (α × β)} {m : List (α × γ)}
    (h : Related R l m) : l.map Prod.fst = m.map Prod.fst := by
  induction h with
  | nil => rfl
  | cons hhead _ ih => rw [List.map_cons, List.map_cons, hhead.1, ih]

theorem related_map {R : β → γ → Prop} {l : List (α × β)} {f : β → γ} (h : ∀ e ∈ l, R e.2 (f e.2)) :
    Related R l (l.map fun e => (e.1, f e.2)) := by
  induction l with
  | nil => exact .nil
  | cons e l ih =>
      exact .cons ⟨rfl, h e List.mem_cons_self⟩ (ih fun e' he' => h e' (List.mem_cons_of_mem e he'))

theorem Related.imp_mem {R S : β → γ → Prop} {l : List (α × β)} {m : List (α × γ)}
    (h : Related R l m) (himp : ∀ e ∈ l, ∀ x, R e.2 x → S e.2 x) : Related S l m := by
  induction h with
  | nil => exact .nil
  | @cons e f l m hhead _ ih =>
      exact .cons ⟨hhead.1, himp e List.mem_cons_self f.2 hhead.2⟩
        (ih fun e' he' => himp e' (List.mem_cons_of_mem e he'))

theorem Related.mem_right {R : β → γ → Prop} {l : List (α × β)} {m : List (α × γ)}
    (h : Related R l m) {f : α × γ} (hf : f ∈ m) : ∃ e ∈ l, e.1 = f.1 ∧ R e.2 f.2 := by
  induction h with
  | nil => cases hf
  | @cons e _ l m hhead _ ih =>
      rcases List.mem_cons.mp hf with rfl | hf
      · exact ⟨e, List.mem_cons_self, hhead⟩
      · obtain ⟨e', he', hrel⟩ := ih hf
        exact ⟨e', List.mem_cons_of_mem e he', hrel⟩

theorem Related.flip {R : β → γ → Prop} {l : List (α × β)} {m : List (α × γ)} (h : Related R l m) :
    Related (fun x b => R b x) m l := by
  induction h with
  | nil => exact .nil
  | cons hhead _ ih => exact .cons ⟨hhead.1.symm, hhead.2⟩ ih

theorem exists_related {R : β → γ → Prop} {l : List (α × β)} (h : ∀ e ∈ l, ∃ x, R e.2 x) :
    ∃ m, Related R l m := by
  induction l with
  | nil => exact ⟨[], .nil⟩
  | cons e l ih =>
      obtain ⟨x, hx⟩ := h e List.mem_cons_self
      obtain ⟨m, hm⟩ := ih fun e' he' => h e' (List.mem_cons_of_mem e he')
      exact ⟨(e.1, x) :: m, .cons ⟨rfl, hx⟩ hm⟩

/-- Give every key what a function that may fail makes of its value. -/
def traverse {ε : Type*} (f : β → Except ε γ) : List (α × β) → Except ε (List (α × γ))
  | [] => .ok []
  | (a, b) :: l =>
      match f b with
      | .ok x => (traverse f l).map ((a, x) :: ·)
      | .error e => .error e

theorem traverse_cons {ε : Type*} (f : β → Except ε γ) (a : α) (b : β) (l : List (α × β)) :
    traverse f ((a, b) :: l) = (f b).bind fun x => (traverse f l).map ((a, x) :: ·) := by
  rw [traverse]
  cases f b <;> rfl

theorem traverse_eq_ok {ε : Type*} {f : β → Except ε γ} {l : List (α × β)} {m : List (α × γ)} :
    traverse f l = .ok m ↔ Related (fun b x => f b = .ok x) l m := by
  induction l generalizing m with
  | nil =>
      constructor
      · rintro ⟨⟩
        exact .nil
      · rintro ⟨⟩
        rfl
  | cons e l ih =>
      obtain ⟨a, b⟩ := e
      rw [traverse_cons]
      constructor
      · intro h
        cases hx : f b with
        | error e =>
            rw [hx] at h
            cases h
        | ok x =>
            rw [hx] at h
            cases hrest : traverse f l with
            | error e =>
                rw [hrest] at h
                cases h
            | ok rest =>
                rw [hrest] at h
                cases h
                exact .cons ⟨rfl, hx⟩ (ih.mp hrest)
      · rintro (_ | ⟨⟨ha, hx⟩, hrest⟩)
        rename_i g rest
        obtain ⟨a', x⟩ := g
        cases ha
        rw [hx, ih.mpr hrest]
        rfl

theorem traverse_congr {ε : Type*} {f g : β → Except ε γ} {l : List (α × β)}
    (h : ∀ e ∈ l, f e.2 = g e.2) : traverse f l = traverse g l := by
  induction l with
  | nil => rfl
  | cons e l ih =>
      rw [traverse_cons, traverse_cons, h e List.mem_cons_self,
        ih fun e' he' => h e' (List.mem_cons_of_mem e he')]

theorem traverse_mem {ε : Type*} {f : β → Except ε γ} {l : List (α × β)} {m : List (α × γ)}
    (h : traverse f l = .ok m) {e : α × β} (he : e ∈ l) : ∃ x, f e.2 = .ok x := by
  have hrelated := traverse_eq_ok.mp h
  clear h
  induction hrelated with
  | nil => cases he
  | cons hhead _ ih =>
      rcases List.mem_cons.mp he with rfl | he
      · exact ⟨_, hhead.2⟩
      · exact ih he

theorem traverse_ok {ε : Type*} {f : β → Except ε γ} {l : List (α × β)}
    (h : ∀ e ∈ l, ∃ x, f e.2 = .ok x) : ∃ m, traverse f l = .ok m := by
  induction l with
  | nil => exact ⟨[], rfl⟩
  | cons e l ih =>
      obtain ⟨x, hx⟩ := h e List.mem_cons_self
      obtain ⟨m, hm⟩ := ih fun e' he' => h e' (List.mem_cons_of_mem e he')
      refine ⟨(e.1, x) :: m, ?_⟩
      rw [traverse_cons, hx, hm]
      rfl

variable [DecidableEq α]

/-- Give a key a value. -/
def put (a : α) (b : β) : List (α × β) → List (α × β)
  | [] => [(a, b)]
  | e :: l => if e.1 = a then (e.1, b) :: l else e :: put a b l

/-- Take a key away. -/
def del (a : α) (l : List (α × β)) : List (α × β) := l.filter fun e => e.1 ≠ a

/-- The dictionary of a list of pairs. -/
def ofPairs (l : List (α × β)) : List (α × β) := l.foldl (fun d e => put e.1 e.2 d) []

variable {a c : α} {b : β} {l : List (α × β)}

@[simp] theorem put_nil (a : α) (b : β) : put a b [] = [(a, b)] := rfl

theorem put_cons (a : α) (b : β) (e : α × β) (l : List (α × β)) :
    put a b (e :: l) = if e.1 = a then (e.1, b) :: l else e :: put a b l := rfl

theorem lookup_cons (c : α) (e : α × β) (l : List (α × β)) :
    (e :: l).lookup c = if c = e.1 then some e.2 else l.lookup c := by
  rw [List.lookup_cons]
  by_cases h : c = e.1
  · rw [if_pos h, beq_iff_eq.mpr h]
  · rw [if_neg h, beq_false_of_ne h]

theorem lookup_isSome : (l.lookup a).isSome = true ↔ a ∈ l.map Prod.fst := by
  induction l with
  | nil => simp
  | cons e l ih =>
      rw [lookup_cons, List.map_cons, List.mem_cons, ← ih]
      split_ifs with h
      · simp [h]
      · simp [h]

theorem lookup_map (f : β → γ) (l : List (α × β)) :
    (l.map fun e => (e.1, f e.2)).lookup a = (l.lookup a).map f := by
  induction l with
  | nil => rfl
  | cons e l ih =>
      rw [List.map_cons, lookup_cons, lookup_cons, ih]
      split_ifs <;> rfl

theorem mem_of_lookup (h : l.lookup a = some b) : (a, b) ∈ l := by
  obtain ⟨before, after, heq, -⟩ := List.lookup_eq_some_iff.mp h
  rw [heq]
  simp

theorem lookup_of_mem (hnodup : (l.map Prod.fst).Nodup) (h : (a, b) ∈ l) :
    l.lookup a = some b := by
  induction l with
  | nil => cases h
  | cons e l ih =>
      rw [List.map_cons, List.nodup_cons] at hnodup
      rw [lookup_cons]
      rcases List.mem_cons.mp h with rfl | hmem
      · rw [if_pos rfl]
      · rw [if_neg, ih hnodup.2 hmem]
        rintro rfl
        exact hnodup.1 (List.mem_map.mpr ⟨_, hmem, rfl⟩)

theorem lookup_put : (put a b l).lookup c = if c = a then some b else l.lookup c := by
  induction l with
  | nil => rw [put_nil, lookup_cons]
  | cons e l ih =>
      rw [put_cons]
      by_cases hk : e.1 = a
      · rw [if_pos hk, lookup_cons, lookup_cons, hk]
        split_ifs <;> rfl
      · rw [if_neg hk, lookup_cons, lookup_cons, ih]
        by_cases hc : c = e.1
        · rw [if_pos hc, if_pos hc, if_neg fun hca => hk (hc.symm.trans hca)]
        · rw [if_neg hc, if_neg hc]

/-- The value of a key, with the equality that the key type decides. -/
def get (l : List (α × β)) (a : α) : Option β := l.lookup a

theorem get_put : get (put a b l) c = if c = a then some b else get l c := lookup_put

/-- The order of the pairs does not matter where the keys are distinct. -/
theorem get_perm {m : List (α × β)} (h : l.Perm m) (hnodup : (l.map Prod.fst).Nodup) (a : α) :
    get l a = get m a := by
  have hm : (m.map Prod.fst).Nodup := (h.map Prod.fst).nodup_iff.mp hnodup
  refine Option.ext fun b => ⟨fun hb => ?_, fun hb => ?_⟩
  · exact lookup_of_mem hm (h.subset (mem_of_lookup hb))
  · exact lookup_of_mem hnodup (h.symm.subset (mem_of_lookup hb))

theorem mem_keys_put : c ∈ (put a b l).map Prod.fst ↔ c = a ∨ c ∈ l.map Prod.fst := by
  rw [← lookup_isSome, ← lookup_isSome, lookup_put]
  split_ifs with h
  · simp [h]
  · simp [h]

theorem nodup_put (h : (l.map Prod.fst).Nodup) : ((put a b l).map Prod.fst).Nodup := by
  induction l with
  | nil => simp
  | cons e l ih =>
      rw [List.map_cons, List.nodup_cons] at h
      rw [put_cons]
      split_ifs with hk
      · rw [List.map_cons, List.nodup_cons]
        exact h
      · rw [List.map_cons, List.nodup_cons, mem_keys_put]
        exact ⟨fun hmem => hmem.elim hk h.1, ih h.2⟩

theorem nodup_ofPairs (l : List (α × β)) : ((ofPairs l).map Prod.fst).Nodup := by
  have hfold : ∀ (l d : List (α × β)), (d.map Prod.fst).Nodup →
      ((l.foldl (fun d e => put e.1 e.2 d) d).map Prod.fst).Nodup := by
    intro l
    induction l with
    | nil => exact fun _ h => h
    | cons e l ih => exact fun d h => ih _ (nodup_put h)
  exact hfold l [] List.nodup_nil

theorem mem_keys_ofPairs : c ∈ (ofPairs l).map Prod.fst ↔ c ∈ l.map Prod.fst := by
  have hfold : ∀ (l d : List (α × β)),
      c ∈ (l.foldl (fun d e => put e.1 e.2 d) d).map Prod.fst ↔
        c ∈ d.map Prod.fst ∨ c ∈ l.map Prod.fst := by
    intro l
    induction l with
    | nil =>
        intro d
        rw [List.foldl_nil, List.map_nil, or_iff_left List.not_mem_nil]
    | cons e l ih =>
        intro d
        rw [List.foldl_cons, ih, mem_keys_put, List.map_cons, List.mem_cons]
        tauto
  rw [ofPairs, hfold, List.map_nil, or_iff_right List.not_mem_nil]

/-- The pairs of one list after those of a dictionary. -/
def update (d l : List (α × β)) : List (α × β) := l.foldl (fun d e => put e.1 e.2 d) d

@[simp] theorem update_nil (d : List (α × β)) : update d [] = d := rfl

theorem update_cons (d : List (α × β)) (e : α × β) (l : List (α × β)) :
    update d (e :: l) = update (put e.1 e.2 d) l := rfl

theorem mem_of_mem_put {d : List (α × β)} {e f : α × β} (h : e ∈ put f.1 f.2 d) : e = f ∨ e ∈ d := by
  induction d with
  | nil => exact .inl (List.mem_singleton.mp h)
  | cons g d ih =>
      rw [put_cons] at h
      split_ifs at h with hg
      · rcases List.mem_cons.mp h with rfl | h
        · exact .inl (Prod.ext hg rfl)
        · exact .inr (List.mem_cons_of_mem g h)
      · rcases List.mem_cons.mp h with rfl | h
        · exact .inr List.mem_cons_self
        · exact (ih h).imp id (List.mem_cons_of_mem g)

theorem mem_keys_update {d l : List (α × β)} :
    c ∈ (update d l).map Prod.fst ↔ c ∈ d.map Prod.fst ∨ c ∈ l.map Prod.fst := by
  induction l generalizing d with
  | nil => simp
  | cons e l ih =>
      rw [update_cons, ih, mem_keys_put, List.map_cons, List.mem_cons]
      tauto

theorem mem_of_mem_update {d l : List (α × β)} {e : α × β} (h : e ∈ update d l) : e ∈ d ∨ e ∈ l := by
  induction l generalizing d with
  | nil => exact .inl h
  | cons f l ih =>
      rcases ih h with h | h
      · rcases mem_of_mem_put h with rfl | h
        · exact .inr List.mem_cons_self
        · exact .inl h
      · exact .inr (List.mem_cons_of_mem f h)

/-- A dictionary has only pairs of the list. -/
theorem mem_of_mem_ofPairs {e : α × β} (h : e ∈ ofPairs l) : e ∈ l :=
  (mem_of_mem_update h).resolve_left List.not_mem_nil

/-- A value that a key has already. -/
theorem put_of_lookup (h : l.lookup a = some b) : put a b l = l := by
  induction l with
  | nil => cases h
  | cons e l ih =>
      rw [lookup_cons] at h
      rw [put_cons]
      split_ifs with hkey
      · rw [if_pos hkey.symm] at h
        rw [← Option.some.inj h]
      · rw [if_neg (Ne.symm hkey)] at h
        rw [ih h]

theorem put_of_notMem (h : a ∉ l.map Prod.fst) : put a b l = l ++ [(a, b)] := by
  induction l with
  | nil => rfl
  | cons e l ih =>
      rw [List.map_cons, List.mem_cons, not_or] at h
      rw [put_cons, if_neg (Ne.symm h.1), ih h.2]
      rfl

/-- A list with distinct keys is a dictionary. -/
theorem ofPairs_of_nodup (h : (l.map Prod.fst).Nodup) : ofPairs l = l := by
  have hfold : ∀ (l d : List (α × β)), ((d ++ l).map Prod.fst).Nodup →
      l.foldl (fun d e => put e.1 e.2 d) d = d ++ l := by
    intro l
    induction l with
    | nil => simp
    | cons e l ih =>
        intro d hd
        have hnew : e.1 ∉ d.map Prod.fst := by
          rw [List.map_append, List.map_cons] at hd
          exact fun hmem => (List.disjoint_of_nodup_append hd) hmem List.mem_cons_self
        rw [List.foldl_cons, put_of_notMem hnew, ih _ (by simpa using hd)]
        simp
  exact hfold l [] (by simpa using h)

theorem nodup_update {d l : List (α × β)} (h : (d.map Prod.fst).Nodup) :
    ((update d l).map Prod.fst).Nodup := by
  induction l generalizing d with
  | nil => exact h
  | cons e l ih => exact ih (nodup_put h)

/-- A new pair hides an old one. -/
theorem lookup_update (d l : List (α × β)) (c : α) :
    (update d l).lookup c = ((ofPairs l).lookup c).or (d.lookup c) := by
  have hfold : ∀ d : List (α × β), (update d l).lookup c =
      ((update [] l).lookup c).or (d.lookup c) := by
    induction l with
    | nil =>
        intro d
        rfl
    | cons e l ih =>
        intro d
        rw [update_cons, update_cons, ih (put e.1 e.2 d), ih (put e.1 e.2 []), Option.or_assoc,
          lookup_put, lookup_put]
        split_ifs <;> rfl
  exact hfold d

theorem mem_update {d l : List (α × β)} (hl : (l.map Prod.fst).Nodup) {e : α × β} (he : e ∈ l) :
    e ∈ update d l := by
  have hlookup := lookup_update d l e.1
  rw [ofPairs_of_nodup hl, lookup_of_mem hl he] at hlookup
  exact mem_of_lookup hlookup

theorem del_cons (a : α) (e : α × β) (l : List (α × β)) :
    del a (e :: l) = if e.1 = a then del a l else e :: del a l := by
  rw [del, List.filter_cons]
  split_ifs with hkeep hk hk
  · exact absurd hk (by simpa using hkeep)
  · rfl
  · rfl
  · exact absurd (by simpa using hkeep) hk

theorem lookup_del : (del a l).lookup c = if c = a then none else l.lookup c := by
  induction l with
  | nil =>
      change (none : Option β) = _
      rw [List.lookup_nil, ite_self]
  | cons e l ih =>
      rw [del_cons, lookup_cons]
      by_cases hk : e.1 = a
      · rw [if_pos hk, ih, hk]
        split_ifs <;> rfl
      · rw [if_neg hk, lookup_cons, ih]
        by_cases hc : c = e.1
        · rw [if_pos hc, if_pos hc, if_neg fun hca => hk (hc.symm.trans hca)]
        · rw [if_neg hc, if_neg hc]

/-- An entry and the rest. -/
theorem perm_cons_del (hnodup : (l.map Prod.fst).Nodup) (h : (a, b) ∈ l) :
    l.Perm ((a, b) :: del a l) := by
  induction l with
  | nil => cases h
  | cons e l ih =>
      obtain ⟨hnew, hrest⟩ := List.nodup_cons.mp hnodup
      rcases List.mem_cons.mp h with rfl | hmem
      · have hdel : del a l = l := by
          refine List.filter_eq_self.mpr fun x hx => decide_eq_true fun heq => ?_
          exact hnew (List.mem_map.mpr ⟨x, hx, heq⟩)
        rw [del_cons, if_pos rfl, hdel]
      · have hne : e.1 ≠ a := fun heq => hnew (heq ▸ List.mem_map_of_mem hmem)
        rw [del_cons, if_neg hne]
        exact ((ih hrest hmem).cons e).trans (List.Perm.swap ..)

theorem nodup_del (h : (l.map Prod.fst).Nodup) : ((del a l).map Prod.fst).Nodup :=
  (List.filter_sublist.map Prod.fst).nodup h

section Related

variable {R : β → γ → Prop} {m : List (α × γ)} {x : γ}

theorem Related.put (h : Related R l m) (hb : R b x) : Related R (put a b l) (put a x m) := by
  induction h with
  | nil => exact .cons ⟨rfl, hb⟩ .nil
  | @cons e f l m hhead htail ih =>
      rw [put_cons, put_cons, ← hhead.1]
      split_ifs
      · exact .cons ⟨rfl, hb⟩ htail
      · exact .cons hhead ih

theorem Related.update {d : List (α × β)} {d' : List (α × γ)} (hd : Related R d d')
    (h : Related R l m) : Related R (update d l) (update d' m) := by
  induction h generalizing d d' with
  | nil => exact hd
  | @cons e f l m hhead _ ih =>
      rw [update_cons, update_cons, ← hhead.1]
      exact ih (hd.put hhead.2)

theorem Related.ofPairs (h : Related R l m) : Related R (ofPairs l) (ofPairs m) :=
  Related.update .nil h

/-- What is under a key of both dictionaries. -/
theorem Related.rel (h : Related R l m) (a : α) : Option.Rel R (l.lookup a) (m.lookup a) := by
  induction h with
  | nil => exact .none
  | @cons e f l m hhead _ ih =>
      rw [lookup_cons, lookup_cons, ← hhead.1]
      split_ifs
      · exact .some hhead.2
      · exact ih

theorem Related.lookup (h : Related R l m) (hb : l.lookup a = some b) :
    ∃ x, m.lookup a = some x ∧ R b x := by
  induction h with
  | nil => cases hb
  | @cons e f l m hhead _ ih =>
      rw [lookup_cons] at hb ⊢
      rw [← hhead.1]
      split_ifs at hb ⊢
      · cases hb
        exact ⟨f.2, rfl, hhead.2⟩
      · exact ih hb

end Related

end Assoc
