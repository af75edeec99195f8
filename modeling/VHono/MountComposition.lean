import VHono.MountTree

/-! # Composition of sub-app middlewares

    What the middlewares around a matched handler are, for a root application
    over a tree of mounts.  `route` copies the middlewares of the application
    it mounts, and nothing of what that application has mounted itself; the
    copies are selected again by prefix.  So the chain of the owner is run in
    full exactly when only its first application has middlewares, the copy of
    these is complete and selected, and no other copy is selected with it. -/

namespace VHono

open ByteString EdgeTree MachineRuns

variable {E : RegexEngine} {M F : Type}

/-- Requests served by an application, one after the other. -/
structure Served where
  method : ByteString
  path   : ByteString
  now    : Int

namespace Hono

def serveAll (app : Hono E M F) (requests : List Served) : Hono E M F :=
  requests.foldl (fun app r => (app.matchRequest r.method r.path r.now).2) app

theorem sameSetup_serveAll (requests : List Served) :
    ∀ app : Hono E M F, SameSetup app (app.serveAll requests) := by
  induction requests with
  | nil => intro app; exact SameSetup.refl app
  | cons r rs ih =>
      intro app
      exact (app.sameSetup_matchRequest r.method r.path r.now).trans (ih _)

theorem AllHandlers.serveAll {P : F → Prop} (requests : List Served) :
    ∀ {app : Hono E M F}, AllHandlers P app → AllHandlers P (app.serveAll requests) := by
  induction requests with
  | nil => intro app h; exact h
  | cons r rs ih => intro app h; exact ih (h.matchRequest r.method r.path r.now).1

/-- With the prefixes precomputed, neither shortcut of the selection shows. -/
theorem matchedMiddlewares_precomputed (S : CompareSort) (app : Hono E M F)
    (path : ByteString) :
    (app.precomputeMiddlewarePrefixes S).matchedMiddlewares path
      = app.contextMiddlewares
        ++ (app.precomputeMiddlewarePrefixes S).mountedMiddlewares path := by
  have hempty : app.routeMiddlewares.len = 0 →
      (app.precomputeMiddlewarePrefixes S).mountedMiddlewares path = [] := by
    intro hlen
    refine List.flatMap_eq_nil_iff.mpr (fun p hp => ?_)
    have hkeys : p ∈ app.routeMiddlewares.keys := S.mem_sortBy.mp hp
    rw [InsertionMap.keys, List.length_eq_zero_iff.mp hlen] at hkeys
    cases hkeys
  by_cases hflag : (app.precomputeMiddlewarePrefixes S).hasMiddlewares = true
  · rw [matchedMiddlewares, if_neg (not_not_intro hflag), selectMiddlewares]
    by_cases hlen : app.routeMiddlewares.len = 0
    · rw [hempty hlen, List.append_nil, List.append_nil]
      exact if_pos hlen
    · exact if_neg hlen
  · have hnone : app.contextMiddlewares.length = 0 ∧ app.routeMiddlewares.len = 0 := by
      simpa [precomputeMiddlewarePrefixes] using hflag
    rw [matchedMiddlewares, if_pos hflag, hempty hnone.2,
      List.length_eq_zero_iff.mp hnone.1]
    rfl

end Hono

namespace Forest

variable (S : CompareSort)

/-- The root's own middlewares, then those of its chain, outermost first. -/
def composed (fo : Forest E M F) (root : AppId) (chain : List AppId) : List (AppId × M) :=
  fo.own root ++ chain.flatMap fo.own

/-- The application runs, at the path, the middlewares of the owner's chain. -/
def Composes (fo : Forest E M F) (root : AppId) (app : Hono E (AppId × M) (AppId × F))
    (path : ByteString) (owner : AppId) : Prop :=
  ∀ chain, Chain fo.edges root chain owner →
    app.matchedMiddlewares path = fo.composed root chain

/-- What a mount on the root contributes at a path: its copy, if selected. -/
def contribution (path : ByteString) (mt : Mount M) : List (AppId × M) :=
  if Hono.selectsPrefix path mt.pfx then mt.snapshot else []

/-- No application below the first of the chain has middlewares; the mount of the
    first contributes all that it has; every other mount on the root nothing. -/
def ChainComplete (fo : Forest E M F) (root : AppId) (path : ByteString)
    (chain : List AppId) : Prop :=
  (∀ a ∈ chain.tail, fo.own a = []) ∧
  ∀ mt ∈ fo.mounts, mt.parent = root →
    contribution path mt = if chain.head? = some mt.child then fo.own mt.child else []

/-! ## The mounted middlewares, mount by mount -/

/-- The application a request finds: prefixes precomputed, other requests served. -/
def started (fo : Forest E M F) (root : AppId) (earlier : List Served) :
    Hono E (AppId × M) (AppId × F) :=
  ((fo.apps root).precomputeMiddlewarePrefixes S).serveAll earlier

/-- What the selection loop adds to the root's own middlewares. -/
def mounted (fo : Forest E M F) (root : AppId) (path : ByteString) : List (AppId × M) :=
  ((fo.apps root).precomputeMiddlewarePrefixes S).mountedMiddlewares path

theorem matchedMiddlewares_started (fo : Forest E M F) (root : AppId)
    (earlier : List Served) (path : ByteString) :
    (fo.started S root earlier).matchedMiddlewares path
      = fo.own root ++ fo.mounted S root path := by
  rw [started, (Hono.sameSetup_serveAll earlier _).matchedMiddlewares path]
  exact Hono.matchedMiddlewares_precomputed S (fo.apps root) path

variable {fo : Forest E M F} {root : AppId} {path : ByteString}

/-- The contribution of one prefix. -/
theorem stored_eq_flatMap (h : Built fo) (root : AppId) (path pfx : ByteString) :
    (if Hono.selectsPrefix path pfx then
        ((fo.apps root).routeMiddlewares.get? pfx).getD [] else [])
      = (fo.mounts.filter (fun mt => mt.parent = root ∧ mt.pfx = pfx)).flatMap
          (contribution path) := by
  by_cases hsel : Hono.selectsPrefix path pfx = true
  · rw [if_pos hsel, h.stored root pfx, copied]
    refine List.flatMap_congr (fun mt hmt => ?_)
    have hpfx : mt.pfx = pfx := (of_decide_eq_true (List.mem_filter.mp hmt).2).2
    rw [contribution, hpfx, if_pos hsel]
  · rw [if_neg hsel]
    refine (List.flatMap_eq_nil_iff.mpr (fun mt hmt => ?_)).symm
    have hpfx : mt.pfx = pfx := (of_decide_eq_true (List.mem_filter.mp hmt).2).2
    rw [contribution, hpfx, if_neg hsel]

/-- A mounted middleware is contributed by some mount on the root, and conversely. -/
theorem mem_mounted_iff (h : Built fo) {x : AppId × M} :
    x ∈ fo.mounted S root path
      ↔ ∃ mt ∈ fo.mounts, mt.parent = root ∧ x ∈ contribution path mt := by
  constructor
  · intro hx
    obtain ⟨p, -, hxp⟩ := List.mem_flatMap.mp hx
    have hxp' : x ∈ (fo.mounts.filter (fun mt => mt.parent = root ∧ mt.pfx = p)).flatMap
        (contribution path) := by
      rw [← stored_eq_flatMap h root path p]
      exact hxp
    obtain ⟨mt, hmt, hxmt⟩ := List.mem_flatMap.mp hxp'
    obtain ⟨hmem, hpar⟩ := List.mem_filter.mp hmt
    exact ⟨mt, hmem, (of_decide_eq_true hpar).1, hxmt⟩
  · rintro ⟨mt, hmt, hpar, hx⟩
    have hstored : x ∈ (if Hono.selectsPrefix path mt.pfx then
        ((fo.apps root).routeMiddlewares.get? mt.pfx).getD [] else []) := by
      rw [stored_eq_flatMap h root path mt.pfx]
      refine List.mem_flatMap.mpr ⟨mt, List.mem_filter.mpr ⟨hmt, ?_⟩, hx⟩
      exact decide_eq_true ⟨hpar, rfl⟩
    refine List.mem_flatMap.mpr ⟨mt.pfx, S.mem_sortBy.mpr ?_, hstored⟩
    -- something is stored under the prefix, so it is a key
    cases hget : (fo.apps root).routeMiddlewares.get? mt.pfx with
    | none =>
        rw [hget] at hstored
        split at hstored
        · cases hstored
        · cases hstored
    | some mws => exact InsertionMap.mem_keys_iff.mpr ⟨mws, hget⟩

/-- A list of pieces of which one only is not empty. -/
theorem flatMap_eq_of_unique {α β : Type*} {l : List α} (hnd : l.Nodup) {f : α → List β}
    {a : α} (ha : a ∈ l) (hother : ∀ x ∈ l, x ≠ a → f x = []) : l.flatMap f = f a := by
  obtain ⟨left, right, rfl⟩ := List.append_of_mem ha
  have hnot : a ∉ left ∧ a ∉ right := by
    have := List.nodup_middle.mp hnd
    rw [List.nodup_cons, List.mem_append, not_or] at this
    exact this.1
  have hleft : left.flatMap f = [] := List.flatMap_eq_nil_iff.mpr (fun x hx =>
    hother x (List.mem_append_left _ hx) (fun he => hnot.1 (he ▸ hx)))
  have hright : right.flatMap f = [] := List.flatMap_eq_nil_iff.mpr (fun x hx =>
    hother x (List.mem_append_right _ (List.mem_cons_of_mem _ hx))
      (fun he => hnot.2 (he ▸ hx)))
  rw [List.flatMap_append, List.flatMap_cons, hleft, hright, List.nil_append,
    List.append_nil]

theorem mounts_nodup_children (ht : IsTree fo.edges root) :
    (fo.mounts.map (·.child)).Nodup := by
  have := ht.once
  rw [edges, List.map_map] at this
  exact this

theorem mount_unique (ht : IsTree fo.edges root) {mt mt' : Mount M} (h : mt ∈ fo.mounts)
    (h' : mt' ∈ fo.mounts) (hc : mt.child = mt'.child) : mt = mt' :=
  List.inj_on_of_nodup_map (mounts_nodup_children ht) h h' hc

/-- **ONE CONTRIBUTION.**  If one mount on the root contributes and no other does,
    its contribution is all that the loop adds. -/
theorem mounted_eq_contribution (h : Built fo) (ht : IsTree fo.edges root) {mt : Mount M}
    (hmt : mt ∈ fo.mounts) (hpar : mt.parent = root)
    (hother : ∀ mt' ∈ fo.mounts, mt'.parent = root → mt' ≠ mt →
      contribution path mt' = []) :
    fo.mounted S root path = contribution path mt := by
  have hstored : ∀ pfx, (if Hono.selectsPrefix path pfx then
      ((fo.apps root).routeMiddlewares.get? pfx).getD [] else [])
      = if pfx = mt.pfx then contribution path mt else [] := by
    intro pfx
    rw [stored_eq_flatMap h root path pfx]
    by_cases hp : pfx = mt.pfx
    -- under the mount's prefix only the mount contributes
    · rw [if_pos hp]
      refine flatMap_eq_of_unique ?_ (List.mem_filter.mpr ⟨hmt, ?_⟩) ?_
      · exact (List.Nodup.of_map _ (mounts_nodup_children ht)).filter _
      · exact decide_eq_true ⟨hpar, hp.symm⟩
      · intro mt' hmt' hne
        obtain ⟨hmem, hpar'⟩ := List.mem_filter.mp hmt'
        exact hother mt' hmem (of_decide_eq_true hpar').1 hne
    -- under any other prefix nothing is contributed
    · rw [if_neg hp]
      refine List.flatMap_eq_nil_iff.mpr (fun mt' hmt' => ?_)
      obtain ⟨hmem, hpar'⟩ := List.mem_filter.mp hmt'
      obtain ⟨hroot', hpfx'⟩ := of_decide_eq_true hpar'
      refine hother mt' hmem hroot' (fun heq => hp ?_)
      rw [← hpfx', heq]
  by_cases hkey : mt.pfx ∈ ((fo.apps root).precomputeMiddlewarePrefixes S).sortedMiddlewarePrefixes
  · have hnd : ((fo.apps root).precomputeMiddlewarePrefixes S).sortedMiddlewarePrefixes.Nodup :=
      S.nodup_sortBy.mpr (InsertionMap.nodup_keys _)
    have hall := flatMap_eq_of_unique hnd (f := fun pfx => if Hono.selectsPrefix path pfx then
      ((fo.apps root).routeMiddlewares.get? pfx).getD [] else []) hkey (fun pfx _ hne => by
        rw [hstored pfx, if_neg hne])
    rw [hstored mt.pfx, if_pos rfl] at hall
    exact hall
  · -- nothing is stored under the prefix, so the mount copied nothing
    have hnil : contribution path mt = [] := by
      refine List.eq_nil_iff_forall_not_mem.mpr (fun x hx => ?_)
      have hx' := (hstored mt.pfx).symm
      rw [if_pos rfl] at hx'
      rw [hx'] at hx
      cases hget : (fo.apps root).routeMiddlewares.get? mt.pfx with
      | none =>
          rw [hget] at hx
          split at hx
          · cases hx
          · cases hx
      | some mws =>
          exact hkey (S.mem_sortBy.mpr (InsertionMap.mem_keys_iff.mpr ⟨mws, hget⟩))
    rw [hnil]
    refine List.flatMap_eq_nil_iff.mpr (fun pfx hpfx => ?_)
    have hne : pfx ≠ mt.pfx := by
      rintro rfl
      exact hkey hpfx
    exact (hstored pfx).trans (if_neg hne)

/-! ## The composition theorem -/

theorem mem_edges {mt : Mount M} (h : mt ∈ fo.mounts) : (mt.parent, mt.child) ∈ fo.edges :=
  List.mem_map.mpr ⟨mt, h, rfl⟩

/-- A contributed middleware carries the application mounted. -/
theorem tag_of_mem_contribution (h : Built fo) {mt : Mount M} (hmt : mt ∈ fo.mounts)
    {x : AppId × M} (hx : x ∈ contribution path mt) : x.1 = mt.child := by
  rw [contribution] at hx
  split at hx
  · exact h.copies mt hmt x hx
  · cases hx

/-- A complete chain is composed: the loop adds what its first application has. -/
theorem mounted_of_chainComplete (h : Built fo) (ht : IsTree fo.edges root) {o : AppId}
    {chain : List AppId} (hc : Chain fo.edges root chain o)
    (hcomplete : fo.ChainComplete root path chain) :
    fo.mounted S root path = chain.flatMap fo.own := by
  obtain ⟨htail, hmounts⟩ := hcomplete
  rcases hc.shape with hnil | ⟨c, t, hsplit, hedge, -⟩
  · subst hnil
    refine List.eq_nil_iff_forall_not_mem.mpr (fun x hx => ?_)
    obtain ⟨mt, hmt, hpar, hx'⟩ := (mem_mounted_iff S h).mp hx
    rw [hmounts mt hmt hpar] at hx'
    cases hx'
  · subst hsplit
    obtain ⟨mt, hmt, hpc⟩ := List.mem_map.mp hedge
    have hpar : mt.parent = root := congrArg Prod.fst hpc
    have hchild : mt.child = c := congrArg Prod.snd hpc
    have hfirst : contribution path mt = fo.own c := by
      rw [hmounts mt hmt hpar, hchild]
      exact if_pos rfl
    have hrest : t.flatMap fo.own = [] := List.flatMap_eq_nil_iff.mpr htail
    rw [List.flatMap_cons, hrest, List.append_nil, ← hfirst]
    refine mounted_eq_contribution S h ht hmt hpar (fun mt' hmt' hpar' hne => ?_)
    rw [hmounts mt' hmt' hpar']
    refine if_neg (fun heq => hne (mount_unique ht hmt' hmt ?_))
    rw [hchild]
    exact (Option.some.inj heq).symm

/-- What a composed chain says about the applications on it. -/
theorem chainComplete_of_mounted (h : Built fo) (ht : IsTree fo.edges root) {o : AppId}
    {chain : List AppId} (hc : Chain fo.edges root chain o)
    (heq : fo.mounted S root path = chain.flatMap fo.own) :
    fo.ChainComplete root path chain := by
  -- a middleware of a later application would come from a mount on the root
  have htail : ∀ a ∈ chain.tail, fo.own a = [] := by
    intro a ha
    cases chain with
    | nil => cases ha
    | cons c t =>
        refine List.eq_nil_iff_forall_not_mem.mpr (fun x hx => ?_)
        have hmem : x ∈ fo.mounted S root path := by
          rw [heq]
          exact List.mem_flatMap.mpr ⟨a, List.mem_cons_of_mem _ ha, hx⟩
        obtain ⟨mt, hmt, hpar, hx'⟩ := (mem_mounted_iff S h).mp hmem
        have hchild : mt.child = a := (tag_of_mem_contribution h hmt hx').symm.trans
          (h.tagged a x hx)
        refine ht.not_edge_of_mem_tail hc ha ?_
        rw [← hpar, ← hchild]
        exact mem_edges hmt
  -- a contribution is tagged with the first application of the chain, if there is any
  have htag : ∀ mt ∈ fo.mounts, mt.parent = root → chain.head? ≠ some mt.child →
      contribution path mt = [] := by
    intro mt hmt hpar hhead
    refine List.eq_nil_iff_forall_not_mem.mpr (fun x hx => ?_)
    have hmem : x ∈ chain.flatMap fo.own := by
      rw [← heq]
      exact (mem_mounted_iff S h).mpr ⟨mt, hmt, hpar, hx⟩
    obtain ⟨a, ha, hxa⟩ := List.mem_flatMap.mp hmem
    have hchild : a = mt.child := (h.tagged a x hxa).symm.trans (tag_of_mem_contribution h hmt hx)
    cases chain with
    | nil => cases ha
    | cons c t =>
        rcases List.mem_cons.mp ha with hac | hat
        · exact hhead (by rw [← hchild, hac]; rfl)
        · rw [htail a hat] at hxa
          cases hxa
  refine ⟨htail, fun mt hmt hpar => ?_⟩
  by_cases hhead : chain.head? = some mt.child
  · rw [if_pos hhead]
    have hone := mounted_eq_contribution S h ht hmt hpar (fun mt' hmt' hpar' hne => by
      refine htag mt' hmt' hpar' (fun hhead' => hne (mount_unique ht hmt' hmt ?_))
      exact Option.some.inj (hhead'.symm.trans hhead))
    rw [← hone, heq]
    cases chain with
    | nil => cases hhead
    | cons c t =>
        have hrest : t.flatMap fo.own = [] := List.flatMap_eq_nil_iff.mpr htail
        rw [List.flatMap_cons, hrest, List.append_nil, Option.some.inj hhead]
  · rw [if_neg hhead]
    exact htag mt hmt hpar hhead

/-- **SUB-APP COMPOSITION.**  In every forest that the building calls produce and
    in which the root has a tree of mounts, a request the started root matches
    finds a handler at the end of a mount chain, and runs the middlewares of that
    chain, outermost first, if and only if the chain is complete at its path. -/
theorem composes_iff (now : Int) (calls : List (BuildCall M F)) (root : AppId)
    (earlier : List Served) (r : Served) (result : ContextRouteMatch (AppId × F))
    (ht : IsTree (grown S now calls : Forest E M F).edges root)
    (hmatch : (((grown S now calls : Forest E M F).started S root earlier).matchRequest
      r.method r.path r.now).1 = some result) :
    ∃ chain,
      Chain (grown S now calls : Forest E M F).edges root chain result.handler.handle.1 ∧
      (Composes (grown S now calls : Forest E M F) root
          ((grown S now calls).started S root earlier) r.path result.handler.handle.1
        ↔ ChainComplete (grown S now calls : Forest E M F) root r.path chain) := by
  have hbuilt : Built (grown S now calls : Forest E M F) := built_grown S now calls
  generalize (grown S now calls : Forest E M F) = fo at *
  have hall : (fo.started S root earlier).AllHandlers (fo.OwnerBelow root) := by
    have h := hbuilt.handlers root
    exact Hono.AllHandlers.serveAll earlier ⟨h.lists, h.fast, h.hybrid⟩
  obtain ⟨chain, hchain⟩ := (hall.matchRequest r.method r.path r.now).2 result hmatch
  refine ⟨chain, hchain, ?_⟩
  constructor
  · intro hcomp
    have heq := hcomp chain hchain
    rw [matchedMiddlewares_started, composed] at heq
    exact chainComplete_of_mounted S hbuilt ht hchain (List.append_cancel_left heq)
  · intro hcomplete chain' hchain'
    rw [matchedMiddlewares_started, composed, ← ht.chain_unique hchain hchain',
      mounted_of_chainComplete S hbuilt ht hchain hcomplete]

/-! ## One mount, and a mount within a mount -/

/-- A request for `GET` at a path. -/
def getRequest (path : String) : Served := ⟨ascii "GET", ascii path, 0⟩

/-- A root with a middleware, and one mounted application with another. -/
def oneMount : Forest segmentEngine Nat Nat :=
  grown .insertion 0 [.useMiddleware 0 1, .on 1 .get (ascii "/x") 5, .useMiddleware 1 7,
    .route 0 (ascii "/b") 1]

theorem composes_iff_of_one_mount :
    ∃ result, ((oneMount.started .insertion 0 []).matchRequest
        (ascii "GET") (ascii "/b/x") 0).1 = some result ∧
      ∃ chain, Chain oneMount.edges 0 chain result.handler.handle.1 ∧
        (Composes oneMount 0 (oneMount.started .insertion 0 []) (ascii "/b/x")
            result.handler.handle.1
          ↔ ChainComplete oneMount 0 (ascii "/b/x") chain) := by
  obtain ⟨result, hresult⟩ : ∃ result, ((oneMount.started .insertion 0 []).matchRequest
      (ascii "GET") (ascii "/b/x") 0).1 = some result :=
    Option.isSome_iff_exists.mp (by decide)
  refine ⟨result, hresult, ?_⟩
  exact composes_iff .insertion 0 _ 0 [] (getRequest "/b/x") result
    ⟨by decide, by decide⟩ hresult

/-- The mounted application has itself mounted one with a middleware and a route. -/
def nestedMount : Forest segmentEngine Nat Nat :=
  grown .insertion 0 [.on 2 .get (ascii "/x") 5, .useMiddleware 2 7,
    .route 1 (ascii "/c") 2, .route 0 (ascii "/b") 1]

/-- The request reaches the inner application's route without its middleware. -/
theorem nested_middleware_lost :
    ((nestedMount.started .insertion 0 []).matchRequest
        (ascii "GET") (ascii "/b/c/x") 0).1.map (·.handler.handle) = some (2, 5) ∧
      ¬ Composes nestedMount 0 (nestedMount.started .insertion 0 []) (ascii "/b/c/x") 2 := by
  refine ⟨by decide, fun hcomp => ?_⟩
  have hchain : Chain nestedMount.edges 0 ([] ++ [1] ++ [2]) 2 :=
    .child (.child .root (by decide)) (by decide)
  exact absurd (hcomp _ hchain) (by decide)

end Forest

end VHono
