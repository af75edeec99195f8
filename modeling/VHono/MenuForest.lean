import VHono.EdgeTree
import VHono.ByteString
import VHono.InsertionMap

/-! # The forest of menus

    Each menu names its parent by its id, and zero stands for none.  The tree
    builder takes the menus without a parent and looks for the children of
    each, and of these in turn, among all menus.  Nothing bounds the descent
    but the table: a menu that is met lies on the one chain of parents that
    leads to it, and no chain of a table visits a menu twice.  What is not
    under such a chain, cycles included, is never met. -/

namespace EdgeTree

variable {α : Type*} {edges : List (α × α)} {root a b : α} {l t : List α}

/-- A chain has one end. -/
theorem Chain.end_unique (h : Chain edges root l a) (h' : Chain edges root l b) : a = b := by
  induction h with
  | root =>
      generalize hnil : ([] : List α) = l at h'
      cases h' with
      | root => rfl
      | child _ _ => exact absurd hnil.symm (List.concat_ne_nil _ _)
  | @child l _ c _ _ _ =>
      generalize hlast : l ++ [c] = l' at h'
      cases h' with
      | root => exact absurd hlast (List.concat_ne_nil _ _)
      | child _ _ => exact (List.cons.inj (List.append_inj' hlast rfl).2).1

/-- The last edge of a chain. -/
theorem Chain.last (h : Chain edges root (l ++ [a]) b) :
    a = b ∧ ∃ c, Chain edges root l c ∧ (c, a) ∈ edges := by
  generalize hlast : l ++ [a] = l' at h
  cases h with
  | root => exact absurd hlast (List.concat_ne_nil _ _)
  | child hchain hedge =>
      obtain ⟨hl, ha⟩ := List.append_inj' hlast rfl
      obtain rfl := (List.cons.inj ha).1
      exact ⟨rfl, _, hl ▸ hchain, hedge⟩

/-- A chain begins with chains. -/
theorem Chain.start (h : Chain edges root (l ++ t) b) : ∃ a, Chain edges root l a := by
  induction t using List.reverseRecOn generalizing b with
  | nil => exact ⟨b, List.append_nil l ▸ h⟩
  | append_singleton t x ih =>
      rw [← List.append_assoc] at h
      obtain ⟨-, c, hc, -⟩ := h.last
      exact ih hc

/-- The edge that leads on from a chain. -/
theorem Chain.next {c : α} (h : Chain edges root (l ++ c :: t) b) (ha : Chain edges root l a) :
    (a, c) ∈ edges ∧ Chain edges root (l ++ [c]) c := by
  rw [List.append_cons] at h
  obtain ⟨x, hx⟩ := h.start
  obtain ⟨rfl, a', ha', hedge⟩ := hx.last
  exact ⟨ha.end_unique ha' ▸ hedge, hx⟩

/-- **A CHAIN VISITS NO NODE TWICE.** -/
theorem IsTree.nodup_chain (ht : IsTree edges root) (h : Chain edges root l a) : l.Nodup := by
  induction h with
  | root => exact List.nodup_nil
  | @child l a b hl he ih =>
      refine List.nodup_append.mpr ⟨ih, List.nodup_singleton b, ?_⟩
      rintro x hx y hy rfl
      obtain rfl := List.mem_singleton.mp hy
      -- the node would have a second, shorter chain
      obtain ⟨s, r, rfl⟩ := List.append_of_mem hx
      rw [List.append_cons] at hl
      obtain ⟨c, hc⟩ := hl.start
      obtain ⟨rfl, -⟩ := hc.last
      have hlength := congrArg List.length (ht.chain_unique hc (Chain.child hl he))
      simp only [List.length_append, List.length_cons] at hlength
      omega

end EdgeTree

namespace VHono

open ByteString EdgeTree

structure MenuItem where
  id          : Int
  name        : ByteString
  path        : ByteString
  icon        : ByteString
  parentId    : Int
  sortOrder   : Int
  permissions : List ByteString
  status      : Bool
  createdAt   : Int
  updatedAt   : Int
  children    : List MenuItem

/-! ## The builder -/

/-- `child.children = …` for one menu after the other. -/
def attachChildren (childrenOf : Int → Option (List MenuItem)) :
    List MenuItem → Option (List MenuItem)
  | [] => some []
  | menu :: menus => do
    let children ← childrenOf menu.id
    let rest ← attachChildren childrenOf menus
    return { menu with children := children } :: rest

/-- `get_children`; none if the calls nest deeper than said. -/
def getChildren (menuMap : InsertionMap Int MenuItem) : Nat → Int → Option (List MenuItem)
  | 0, _ => none
  | depth + 1, parentId =>
    attachChildren (getChildren menuMap depth)
      ((menuMap.entries.map Prod.snd).filter (fun menu => menu.parentId = parentId))

/-- `menu_map`: each menu under its id. -/
def mapMenus (menus : List MenuItem) : InsertionMap Int MenuItem :=
  menus.foldl (fun m menu => m.insert menu.id menu) .empty

def buildMenuTree (depth : Nat) (menus : List MenuItem) : Option (List MenuItem) :=
  attachChildren (getChildren (mapMenus menus) depth) (menus.filter (fun menu => menu.parentId = 0))

/-! ## What a forest holds -/

/-- The menu by itself. -/
def MenuItem.bare (m : MenuItem) : MenuItem := { m with children := [] }

mutual

/-- The menus of a tree, each with the id it is placed under. -/
def MenuItem.places (parent : Int) : MenuItem → List (Int × MenuItem)
  | ⟨id, name, path, icon, parentId, sortOrder, permissions, status, createdAt, updatedAt,
      children⟩ =>
    (parent, ⟨id, name, path, icon, parentId, sortOrder, permissions, status, createdAt, updatedAt,
      []⟩) :: placesOf id children

def placesOf (parent : Int) : List MenuItem → List (Int × MenuItem)
  | [] => []
  | menu :: menus => menu.places parent ++ placesOf parent menus

end

theorem places_eq (parent : Int) (m : MenuItem) :
    m.places parent = (parent, m.bare) :: placesOf m.id m.children := by
  cases m
  rw [MenuItem.places]
  rfl

theorem placesOf_eq_flatMap (parent : Int) : ∀ menus : List MenuItem,
    placesOf parent menus = menus.flatMap (MenuItem.places parent) := by
  intro menus
  induction menus with
  | nil => rw [placesOf, List.flatMap_nil]
  | cons menu menus ih => rw [placesOf, ih, List.flatMap_cons]

/-- Each menu hangs from its parent. -/
def menuEdges (menus : List MenuItem) : List (Int × Int) := menus.map (fun m => (m.parentId, m.id))

/-- The chain of its parents reaches zero. -/
def Rooted (menus : List MenuItem) (m : MenuItem) : Prop :=
  ∃ l, Chain (menuEdges menus) 0 l m.id

/-! ## What is found below a chain -/

section

variable {menus : List MenuItem} {l : List Int} {a : Int}

/-- A table of distinct positive ids. -/
structure IsMenuTable (menus : List MenuItem) : Prop where
  distinct : (menus.map MenuItem.id).Nodup
  positive : ∀ m ∈ menus, 0 < m.id

theorem map_snd_menuEdges (menus : List MenuItem) :
    (menuEdges menus).map Prod.snd = menus.map MenuItem.id := by
  rw [menuEdges, List.map_map]
  rfl

theorem IsMenuTable.isTree (h : IsMenuTable menus) : IsTree (menuEdges menus) 0 := by
  refine ⟨by rw [map_snd_menuEdges]; exact h.distinct, fun hzero => ?_⟩
  rw [map_snd_menuEdges] at hzero
  obtain ⟨m, hm, hid⟩ := List.mem_map.mp hzero
  exact absurd (h.positive m hm) (by omega)

theorem IsMenuTable.eq_of_id (h : IsMenuTable menus) {m m' : MenuItem} (hm : m ∈ menus)
    (hm' : m' ∈ menus) (hid : m.id = m'.id) : m = m' :=
  List.inj_on_of_nodup_map h.distinct hm hm' hid

/-- A chain is no longer than the table. -/
theorem IsMenuTable.length_chain_le (h : IsMenuTable menus) (hl : Chain (menuEdges menus) 0 l a) :
    l.length ≤ menus.length := by
  have hsub : l ⊆ menus.map MenuItem.id := by
    intro x hx
    rw [← map_snd_menuEdges]
    exact hl.mem_children hx
  have hlength := ((h.isTree.nodup_chain hl).subperm hsub).length_le
  rwa [List.length_map] at hlength

theorem mem_menuEdges {p c : Int} : (p, c) ∈ menuEdges menus ↔
    ∃ m ∈ menus, m.parentId = p ∧ m.id = c := by
  simp only [menuEdges, List.mem_map, Prod.mk.injEq]

/-- The map of the builder lists the menus as they come. -/
theorem IsMenuTable.values_mapMenus (h : IsMenuTable menus) :
    (mapMenus menus).entries.map Prod.snd = menus := by
  have hentries := InsertionMap.entries_foldl_insert MenuItem.id id menus .empty h.distinct
  simp only [id_eq] at hentries
  rw [mapMenus, hentries]
  simp only [InsertionMap.empty, List.nil_append, List.map_map]
  exact List.map_id menus

/-- Children that are found are attached. -/
theorem attachChildren_eq {childrenOf : Int → Option (List MenuItem)} : ∀ {items : List MenuItem},
    (∀ i ∈ items, ∃ below, childrenOf i.id = some below) →
      attachChildren childrenOf items
        = some (items.map (fun i => { i with children := (childrenOf i.id).getD [] })) := by
  intro items
  induction items with
  | nil => exact fun _ => rfl
  | cons i items ih =>
      intro h
      rw [List.forall_mem_cons] at h
      obtain ⟨⟨below, hbelow⟩, hrest⟩ := h
      rw [attachChildren, hbelow, ih hrest, List.map_cons, hbelow]
      rfl

/-- What lies below the end of a chain: each menu whose chain goes on from there, once and under
    its parent. -/
structure Grown (menus : List MenuItem) (l : List Int) (a : Int) (below : List MenuItem) : Prop where
  once : ((placesOf a below).map (fun place => place.2.id)).Nodup
  all  : ∀ p m, (p, m) ∈ placesOf a below ↔ ∃ item ∈ menus, m = item.bare ∧ p = item.parentId ∧
    ∃ t, t ≠ [] ∧ Chain (menuEdges menus) 0 (l ++ t) item.id

/-- The menus that hang from the end of a chain, each with what lies below it. -/
theorem IsMenuTable.grown (h : IsMenuTable menus) (hl : Chain (menuEdges menus) 0 l a)
    {below : MenuItem → List MenuItem}
    (hbelow : ∀ i ∈ menus, i.parentId = a → Grown menus (l ++ [i.id]) i.id (below i)) :
    Grown menus l a
      ((menus.filter (fun i => i.parentId = a)).map (fun i => { i with children := below i })) := by
  have hitem : ∀ i ∈ menus.filter (fun i => i.parentId = a), i ∈ menus ∧ i.parentId = a ∧
      Chain (menuEdges menus) 0 (l ++ [i.id]) i.id := by
    intro i hi
    rw [List.mem_filter, decide_eq_true_eq] at hi
    exact ⟨hi.1, hi.2, .child hl (mem_menuEdges.mpr ⟨i, hi.1, hi.2, rfl⟩)⟩
  have hplaces : placesOf a
      ((menus.filter (fun i => i.parentId = a)).map (fun i => { i with children := below i }))
        = (menus.filter (fun i => i.parentId = a)).flatMap
          (fun i => (a, i.bare) :: placesOf i.id (below i)) := by
    rw [placesOf_eq_flatMap, List.flatMap_map]
    refine congrArg (fun f => List.flatMap f _) (funext (fun i => ?_))
    rw [places_eq]
    rfl
  -- an id below one of the menus has a chain through it
  have hthrough : ∀ i ∈ menus.filter (fun i => i.parentId = a), ∀ x,
      x ∈ ((a, i.bare) :: placesOf i.id (below i)).map (fun place => place.2.id) →
        ∃ t, Chain (menuEdges menus) 0 (l ++ i.id :: t) x := by
    intro i hi x hx
    obtain ⟨hmem, hparent, hchain⟩ := hitem i hi
    rw [List.map_cons, List.mem_cons] at hx
    rcases hx with rfl | hx
    · exact ⟨[], hchain⟩
    · obtain ⟨⟨p, m⟩, hm, rfl⟩ := List.mem_map.mp hx
      obtain ⟨item, -, rfl, -, t, -, ht⟩ := ((hbelow i hmem hparent).all p m).mp hm
      exact ⟨t, by rw [List.append_cons]; exact ht⟩
  refine ⟨?_, fun p m => ?_⟩
  · rw [hplaces, List.map_flatMap, List.nodup_flatMap]
    constructor
    · intro i hi
      obtain ⟨hmem, hparent, hchain⟩ := hitem i hi
      refine List.nodup_cons.mpr ⟨fun hself => ?_, (hbelow i hmem hparent).once⟩
      obtain ⟨⟨p, m⟩, hm, hid⟩ := List.mem_map.mp hself
      obtain ⟨item, -, rfl, -, t, hne, ht⟩ := ((hbelow i hmem hparent).all p m).mp hm
      have hsame : item.id = i.id := hid
      rw [hsame] at ht
      have hunique := h.isTree.chain_unique hchain ht
      exact hne (List.append_right_eq_self.mp hunique.symm)
    · have hids : (menus.filter (fun i => i.parentId = a)).Pairwise (fun i j => i.id ≠ j.id) :=
        List.pairwise_map.mp (h.distinct.sublist (List.filter_sublist.map MenuItem.id))
      refine List.Pairwise.imp_of_mem (fun {i j} hi hj hne => ?_) hids
      intro x hx hx'
      obtain ⟨t, ht⟩ := hthrough i hi x hx
      obtain ⟨t', ht'⟩ := hthrough j hj x hx'
      have hunique := List.append_cancel_left (h.isTree.chain_unique ht ht')
      exact hne (List.cons.inj hunique).1
  · rw [hplaces, List.mem_flatMap]
    constructor
    · rintro ⟨i, hi, hplace⟩
      obtain ⟨hmem, hparent, hchain⟩ := hitem i hi
      rcases List.mem_cons.mp hplace with heq | hplace
      · obtain ⟨rfl, rfl⟩ := Prod.mk.inj heq
        exact ⟨i, hmem, rfl, hparent.symm, [i.id], List.cons_ne_nil _ _, hchain⟩
      · obtain ⟨item, hmem', hm, hp, t, -, ht⟩ := ((hbelow i hmem hparent).all p m).mp hplace
        refine ⟨item, hmem', hm, hp, i.id :: t, List.cons_ne_nil _ _, ?_⟩
        rw [List.append_cons]
        exact ht
    · rintro ⟨item, hmem, rfl, rfl, t, hne, ht⟩
      obtain ⟨c, t, rfl⟩ := List.exists_cons_of_ne_nil hne
      obtain ⟨hedge, hchain⟩ := ht.next hl
      obtain ⟨i, hi, hparent, rfl⟩ := mem_menuEdges.mp hedge
      refine ⟨i, List.mem_filter.mpr ⟨hi, decide_eq_true hparent⟩, ?_⟩
      by_cases hlast : t = []
      · -- the chain ends here
        subst hlast
        obtain rfl := h.eq_of_id hi hmem (hchain.end_unique ht)
        rw [hparent]
        exact List.mem_cons_self ..
      · rw [List.append_cons] at ht
        exact List.mem_cons_of_mem _ (((hbelow i hi hparent).all _ _).mpr
          ⟨item, hmem, rfl, rfl, t, hlast, ht⟩)

variable {menuMap : InsertionMap Int MenuItem}

/-- The descent from a chain ends, and finds what lies below. -/
theorem IsMenuTable.getChildren_grown (h : IsMenuTable menus)
    (hmap : menuMap.entries.map Prod.snd = menus) :
    ∀ (depth : Nat) (l : List Int) (a : Int), Chain (menuEdges menus) 0 l a →
      menus.length < depth + l.length →
        ∃ below, getChildren menuMap depth a = some below ∧ Grown menus l a below := by
  intro depth
  induction depth with
  | zero =>
      intro l a hl hdepth
      have hlength := h.length_chain_le hl
      omega
  | succ depth ih =>
      intro l a hl hdepth
      have hbelow : ∀ i ∈ menus, i.parentId = a → ∃ below,
          getChildren menuMap depth i.id = some below ∧ Grown menus (l ++ [i.id]) i.id below := by
        intro i hi hparent
        refine ih _ _ (.child hl (mem_menuEdges.mpr ⟨i, hi, hparent, rfl⟩)) ?_
        rw [List.length_append, List.length_singleton]
        omega
      have hgrown : ∀ i ∈ menus, i.parentId = a →
          Grown menus (l ++ [i.id]) i.id ((getChildren menuMap depth i.id).getD []) := by
        intro i hi hparent
        obtain ⟨below, hsome, hgrown⟩ := hbelow i hi hparent
        rw [hsome]
        exact hgrown
      refine ⟨_, ?_, h.grown hl hgrown⟩
      rw [getChildren, hmap]
      refine attachChildren_eq (fun i hi => ?_)
      rw [List.mem_filter, decide_eq_true_eq] at hi
      exact (hbelow i hi.1 hi.2).imp (fun _ h => h.1)

theorem getChildren_succ : ∀ (depth : Nat) (a : Int) (below : List MenuItem),
    getChildren menuMap depth a = some below → getChildren menuMap (depth + 1) a = some below := by
  have hattach : ∀ {f g : Int → Option (List MenuItem)},
      (∀ a below, f a = some below → g a = some below) → ∀ items out,
        attachChildren f items = some out → attachChildren g items = some out := by
    intro f g hfg items
    induction items with
    | nil => exact fun _ hout => hout
    | cons i items ihItems =>
        intro out hout
        simp only [attachChildren, Option.bind_eq_bind, Option.bind_eq_some_iff] at hout
        obtain ⟨below, hbelow, rest, hrest, hout⟩ := hout
        rw [attachChildren, hfg _ _ hbelow, ihItems _ hrest]
        exact hout
  intro depth
  induction depth with
  | zero => exact fun a below hnone => absurd hnone.symm (Option.some_ne_none below)
  | succ depth ih =>
      intro a below hsome
      rw [getChildren] at hsome ⊢
      exact hattach ih _ _ hsome

/-- More room changes nothing. -/
theorem getChildren_of_le {depth depth' : Nat} (hle : depth ≤ depth') {a : Int}
    {below : List MenuItem} (h : getChildren menuMap depth a = some below) :
    getChildren menuMap depth' a = some below := by
  induction hle with
  | refl => exact h
  | step _ ih => exact getChildren_succ _ _ _ ih

end

/-- **THE FOREST.**  The builder and the searches it makes end, and the forest holds each menu
    whose parents lead to zero once, under its parent, and nothing else. -/
theorem buildMenuTree_places (menus : List MenuItem) (hdistinct : (menus.map MenuItem.id).Nodup)
    (hpositive : ∀ m ∈ menus, 0 < m.id) :
    (∀ item ∈ menus, Rooted menus item → ∃ below, ∀ depth, menus.length ≤ depth →
      getChildren (mapMenus menus) depth item.id = some below) ∧
    ∃ forest, (∀ depth, menus.length ≤ depth → buildMenuTree depth menus = some forest) ∧
      ((placesOf 0 forest).map (fun place => place.2.id)).Nodup ∧
      ∀ p m, (p, m) ∈ placesOf 0 forest ↔
        ∃ item ∈ menus, Rooted menus item ∧ m = item.bare ∧ p = item.parentId := by
  have h : IsMenuTable menus := ⟨hdistinct, hpositive⟩
  have hbuild : ∀ depth, buildMenuTree depth menus
      = getChildren (mapMenus menus) (depth + 1) 0 := by
    intro depth
    rw [getChildren, h.values_mapMenus]
    rfl
  obtain ⟨forest, hforest, hgrown⟩ := h.getChildren_grown h.values_mapMenus (menus.length + 1) [] 0
    .root (by rw [List.length_nil]; omega)
  refine ⟨fun item hitem hrooted => ?_, forest, fun depth hdepth => ?_, hgrown.once,
    fun p m => ?_⟩
  · obtain ⟨l, hl⟩ := hrooted
    -- the chain of a menu is not empty
    have hlength : 0 < l.length := by
      refine List.length_pos_of_ne_nil ?_
      rintro rfl
      exact absurd (h.positive item hitem) (by rw [← Chain.root.end_unique hl]; omega)
    obtain ⟨below, hbelow, -⟩ := h.getChildren_grown h.values_mapMenus menus.length l item.id hl
      (by omega)
    exact ⟨below, fun depth hdepth => getChildren_of_le hdepth hbelow⟩
  · rw [hbuild]
    exact getChildren_of_le (by omega) hforest
  · rw [hgrown.all]
    refine exists_congr (fun item => and_congr_right (fun hitem => ?_))
    constructor
    · rintro ⟨hm, hp, t, -, ht⟩
      exact ⟨⟨t, ht⟩, hm, hp⟩
    · rintro ⟨⟨t, ht⟩, hm, hp⟩
      refine ⟨hm, hp, t, ?_, ht⟩
      rintro rfl
      -- a chain without nodes ends in zero
      have hzero : (0 : Int) = item.id := Chain.root.end_unique ht
      exact absurd (h.positive item hitem) (by omega)

/-- A menu with nothing but its place. -/
def placedMenu (id parentId : Int) : MenuItem :=
  ⟨id, ascii "users", ascii "/users", [], parentId, 1, [ascii "read"], true, 0, 0, []⟩

/-- Two menus in a row; one below itself, two below each other and one below none are left out. -/
theorem buildMenuTree_places_cycles :
    ∃ forest, buildMenuTree 6 [placedMenu 2 1, placedMenu 1 0, placedMenu 3 3, placedMenu 4 5,
        placedMenu 5 4, placedMenu 6 9] = some forest ∧
      ((placesOf 0 forest).map (fun place => place.2.id)).Nodup := by
  obtain ⟨-, forest, hforest, honce, -⟩ := buildMenuTree_places [placedMenu 2 1, placedMenu 1 0,
    placedMenu 3 3, placedMenu 4 5, placedMenu 5 4, placedMenu 6 9] (by decide) (by decide)
  exact ⟨forest, hforest 6 (by decide), honce⟩

end VHono
