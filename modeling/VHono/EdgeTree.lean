import Mathlib.Tactic

/-! # Trees given by their edges

    A tree as a list of parent–child edges in which no node is a child twice
    and the root is no child.  `Chain edges root l a` says that the nodes of
    `l` lead from the root down to `a`, the root excluded and `a` included.
    In a tree the chain of a node is unique, its first node hangs directly
    from the root and the others do not. -/

namespace EdgeTree

variable {α : Type*}

/-- No node is a child twice, and the root is no child. -/
structure IsTree (edges : List (α × α)) (root : α) : Prop where
  once : (edges.map Prod.snd).Nodup
  top  : root ∉ edges.map Prod.snd

/-- The nodes from the root, excluded, down to a node, included. -/
inductive Chain (edges : List (α × α)) (root : α) : List α → α → Prop
  | root : Chain edges root [] root
  | child {l : List α} {a b : α} :
      Chain edges root l a → (a, b) ∈ edges → Chain edges root (l ++ [b]) b

variable {edges edges' : List (α × α)} {root a b : α} {l l' : List α}

theorem Chain.mono (h : Chain edges root l a) (hsub : ∀ e ∈ edges, e ∈ edges') :
    Chain edges' root l a := by
  induction h with
  | root => exact .root
  | child _ he ih => exact .child ih (hsub _ he)

/-- One more edge above the root. -/
theorem Chain.cons (he : (a, root) ∈ edges) (h : Chain edges root l b) :
    Chain edges a (root :: l) b := by
  induction h with
  | root => exact .child .root he
  | child _ hlast ih => exact .child ih hlast

/-- A chain that is not empty ends in its node. -/
theorem Chain.eq_root_or_mem (h : Chain edges root l a) : (l = [] ∧ a = root) ∨ a ∈ l := by
  cases h with
  | root => exact Or.inl ⟨rfl, rfl⟩
  | child _ _ => exact Or.inr (List.mem_append_right _ (List.mem_singleton_self _))

/-- The first node hangs from the root, each later one from a node of the chain. -/
theorem Chain.shape (h : Chain edges root l a) :
    l = [] ∨ ∃ c t, l = c :: t ∧ (root, c) ∈ edges ∧
      ∀ x ∈ t, ∃ p ∈ l, (p, x) ∈ edges := by
  induction h with
  | root => exact Or.inl rfl
  | @child l a b hl he ih =>
      rcases ih with hnil | ⟨c, t, hsplit, hc, ht⟩
      · rcases hl.eq_root_or_mem with ⟨-, ha⟩ | hmem
        · refine Or.inr ⟨b, [], by rw [hnil]; rfl, ha ▸ he, ?_⟩
          intro x hx
          cases hx
        · rw [hnil] at hmem
          cases hmem
      · refine Or.inr ⟨c, t ++ [b], by rw [hsplit]; rfl, hc, ?_⟩
        intro x hx
        rcases List.mem_append.mp hx with hold | hnew
        · obtain ⟨p, hp, hpx⟩ := ht x hold
          exact ⟨p, List.mem_append_left _ hp, hpx⟩
        · rcases hl.eq_root_or_mem with ⟨hnil, -⟩ | hmem
          · rw [hnil] at hsplit
            cases hsplit
          · rw [List.mem_singleton.mp hnew]
            exact ⟨a, List.mem_append_left _ hmem, he⟩

/-- Every node of a chain is a child. -/
theorem Chain.mem_children (h : Chain edges root l a) {x : α} (hx : x ∈ l) :
    x ∈ edges.map Prod.snd := by
  induction h with
  | root => cases hx
  | @child l a b _ he ih =>
      rcases List.mem_append.mp hx with hold | hnew
      · exact ih hold
      · rw [List.mem_singleton.mp hnew]
        exact List.mem_map.mpr ⟨(a, b), he, rfl⟩

theorem parent_unique (hnd : (edges.map Prod.snd).Nodup) {p q c : α} (hp : (p, c) ∈ edges)
    (hq : (q, c) ∈ edges) : p = q :=
  congrArg Prod.fst (List.inj_on_of_nodup_map hnd hp hq rfl)

/-- **UNIQUENESS.**  A node of a tree has one chain. -/
theorem IsTree.chain_unique (ht : IsTree edges root) (h : Chain edges root l a)
    (h' : Chain edges root l' a) : l = l' := by
  induction h generalizing l' with
  | root =>
      cases h' with
      | root => rfl
      | child _ he => exact absurd (List.mem_map.mpr ⟨_, he, rfl⟩) ht.top
  | child _ he ih =>
      cases h' with
      | root => exact absurd (List.mem_map.mpr ⟨_, he, rfl⟩) ht.top
      | child hl' he' =>
          have hpar := parent_unique ht.once he he'
          subst hpar
          rw [ih hl']

/-- Below the first node of its chain, no node hangs from the root. -/
theorem IsTree.not_edge_of_mem_tail (ht : IsTree edges root) {c : α} {t : List α}
    (h : Chain edges root (c :: t) a) {x : α} (hx : x ∈ t) : (root, x) ∉ edges := by
  intro he
  rcases h.shape with hnil | ⟨c', t', hsplit, -, htail⟩
  · cases hnil
  · have htt : t = t' := (List.cons.inj hsplit).2
    obtain ⟨p, hp, hpx⟩ := htail x (htt ▸ hx)
    have hroot : p = root := parent_unique ht.once hpx he
    exact ht.top (hroot ▸ h.mem_children hp)

end EdgeTree
