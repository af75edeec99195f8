import VHono.TrieRouter
import VHono.TriePatterns

/-! # What the trie router finds

    The tree of a table of patterns is determined step by step: the child at a
    step is the tree of what is left of the patterns with that step
    (`childAt_grow`).  So the descent, which never turns back, finds exactly the
    patterns without a rival, with the names of the first patterns that came
    along (`descend_grow`). -/

namespace VHono

open ByteString PathSegments MachineRuns

variable {F : Type}

namespace ContextTrieNode

def childAt (n : ContextTrieNode F) : PatternStep → Option (ContextTrieNode F)
  | .literal seg => InsertionMap.getEntry seg n.children
  | .param => n.paramChild
  | .rest => n.wildcardChild

/-- The node made for a segment. -/
def fresh (seg : ByteString) : ContextTrieNode F :=
  match stepOf seg with
  | .literal _ => new seg .static []
  | .param => new seg .param (paramNameOf seg)
  | .rest => new seg .wildcard (paramNameOf seg)

/-- One turn of the loop of `add_route`, from the node it has come to. -/
def visit (n : ContextTrieNode F) (r : List ByteString × IHandler F) : ContextTrieNode F :=
  (n.setIfLast r.1 r.2).addSegments r.2 r.1

/-- The tree below a node through which these registrations have come. -/
def grow (R : List (List ByteString × IHandler F)) (n : ContextTrieNode F) : ContextTrieNode F :=
  R.foldl visit n

/-- The steps of a segment and the branches of the source. -/
theorem stepOf_cases (seg : ByteString) :
    (startsWith seg (ascii ":") = true ∧ stepOf seg = .param) ∨
    (¬ startsWith seg (ascii ":") = true ∧ seg = ascii "*" ∧ stepOf seg = .rest) ∨
    (¬ startsWith seg (ascii ":") = true ∧ seg ≠ ascii "*" ∧ stepOf seg = .literal seg) := by
  rw [stepOf]
  by_cases hparam : startsWith seg (ascii ":") = true
  · exact Or.inl ⟨hparam, if_pos hparam⟩
  · rw [if_neg hparam]
    by_cases hrest : seg = ascii "*"
    · exact Or.inr (Or.inl ⟨hparam, hrest, if_pos hrest⟩)
    · exact Or.inr (Or.inr ⟨hparam, hrest, if_neg hrest⟩)

/-- The node itself keeps its handler and its name. -/
theorem addSegments_self (h : IHandler F) (segs : List ByteString) (n : ContextTrieNode F) :
    (n.addSegments h segs).handler = n.handler ∧
      (n.addSegments h segs).paramName = n.paramName := by
  cases segs with
  | nil => exact ⟨rfl, rfl⟩
  | cons seg segs =>
      rw [addSegments]
      split
      · exact ⟨rfl, rfl⟩
      · split
        · exact ⟨rfl, rfl⟩
        · exact ⟨rfl, rfl⟩

/-- **ADDING A SEGMENT** visits the child at its step. -/
theorem childAt_addSegments (h : IHandler F) (seg : ByteString) (segs : List ByteString)
    (n : ContextTrieNode F) (st : PatternStep) :
    (n.addSegments h (seg :: segs)).childAt st
      = if st = stepOf seg then some (((n.childAt st).getD (fresh seg)).visit (segs, h))
        else n.childAt st := by
  rw [addSegments]
  rcases stepOf_cases seg with ⟨hparam, hstep⟩ | ⟨hparam, hrest, hstep⟩ | ⟨hparam, hrest, hstep⟩
  · have hfresh : (fresh seg : ContextTrieNode F) = new seg .param (paramNameOf seg) := by
      rw [fresh, hstep]
    rw [if_pos hparam, hstep]
    cases st with
    | literal s => rfl
    | param => rw [hfresh]; rfl
    | rest => rfl
  · have hfresh : (fresh seg : ContextTrieNode F) = new seg .wildcard (paramNameOf seg) := by
      rw [fresh, hstep]
    rw [if_neg hparam, if_pos hrest, hstep]
    cases st with
    | literal s => rfl
    | param => rfl
    | rest => rw [hfresh]; rfl
  · have hfresh : (fresh seg : ContextTrieNode F) = new seg .static [] := by
      rw [fresh, hstep]
    rw [if_neg hparam, if_neg hrest, hstep]
    cases st with
    | literal s =>
        show InsertionMap.getEntry s (InsertionMap.setEntry seg _ n.children) = _
        rw [InsertionMap.getEntry_setEntry, hfresh]
        by_cases hs : s = seg
        · subst hs
          rw [if_pos rfl, if_pos rfl]
          rfl
        · rw [if_neg hs, if_neg (fun heq => hs (PatternStep.literal.inj heq))]
          rfl
    | param => rfl
    | rest => rfl

theorem childAt_setIfLast (n : ContextTrieNode F) (segs : List ByteString) (h : IHandler F)
    (st : PatternStep) : (n.setIfLast segs h).childAt st = n.childAt st := by
  rw [setIfLast]
  split
  · cases st with
    | literal s => rfl
    | param => rfl
    | rest => rfl
  · rfl

theorem childAt_visit_nil (n : ContextTrieNode F) (h : IHandler F) (st : PatternStep) :
    (n.visit ([], h)).childAt st = n.childAt st := childAt_setIfLast n [] h st

theorem childAt_visit_cons (n : ContextTrieNode F) (seg : ByteString) (segs : List ByteString)
    (h : IHandler F) (st : PatternStep) :
    (n.visit (seg :: segs, h)).childAt st
      = if st = stepOf seg then some (((n.childAt st).getD (fresh seg)).visit (segs, h))
        else n.childAt st := childAt_addSegments h seg segs n st

theorem paramName_visit (n : ContextTrieNode F) (r : List ByteString × IHandler F) :
    (n.visit r).paramName = n.paramName := by
  rw [visit, (addSegments_self ..).2, setIfLast]
  split
  · rfl
  · rfl

theorem handler_visit (n : ContextTrieNode F) (r : List ByteString × IHandler F) :
    (n.visit r).handler = if r.1 = [] then some r.2 else n.handler := by
  rw [visit, (addSegments_self ..).1, setIfLast]
  split
  · rfl
  · rfl

theorem paramName_grow (R : List (List ByteString × IHandler F)) :
    ∀ n : ContextTrieNode F, (grow R n).paramName = n.paramName := by
  induction R with
  | nil => exact fun _ => rfl
  | cons r R ih => exact fun n => (ih (n.visit r)).trans (paramName_visit n r)

/-- The handler of a node is that of the last pattern that ends there. -/
theorem handler_grow (R : List (List ByteString × IHandler F)) (h : IHandler F) :
    ∀ n : ContextTrieNode F, (grow R n).handler = some h ↔
      LastOf R [] h ∨ ((∀ r ∈ R, r.1 ≠ []) ∧ n.handler = some h) := by
  induction R with
  | nil =>
      intro n
      constructor
      · intro hn
        exact Or.inr ⟨fun r hr => absurd hr List.not_mem_nil, hn⟩
      · rintro (hlast | ⟨-, hn⟩)
        · cases hlast.mem
        · exact hn
  | cons r R ih =>
      intro n
      have hsteps : (∀ r' ∈ R, r'.1.map stepOf ≠ ([] : List ByteString).map stepOf)
          ↔ ∀ r' ∈ R, r'.1 ≠ [] :=
        forall₂_congr (fun r' _ => not_congr List.map_eq_nil_iff)
      show (grow R (n.visit r)).handler = some h ↔ _
      rw [ih, handler_visit, lastOf_cons, hsteps, List.forall_mem_cons]
      obtain ⟨ps, y⟩ := r
      by_cases hps : ps = []
      · subst hps
        rw [if_pos rfl]
        constructor
        · rintro (hlast | ⟨hnone, heq⟩)
          · exact Or.inl (Or.inl hlast)
          · obtain rfl : y = h := Option.some.inj heq
            exact Or.inl (Or.inr ⟨rfl, hnone⟩)
        · rintro ((hlast | ⟨heq, hnone⟩) | ⟨⟨hne, -⟩, -⟩)
          · exact Or.inl hlast
          · exact Or.inr ⟨hnone, congrArg some (Prod.mk.inj heq).2⟩
          · exact absurd rfl hne
      · rw [if_neg hps]
        constructor
        · rintro (hlast | ⟨hnone, heq⟩)
          · exact Or.inl (Or.inl hlast)
          · exact Or.inr ⟨⟨hps, hnone⟩, heq⟩
        · rintro ((hlast | ⟨heq, -⟩) | ⟨⟨-, hnone⟩, heq⟩)
          · exact Or.inl hlast
          · exact absurd (Prod.mk.inj heq).1 hps
          · exact Or.inr ⟨hnone, heq⟩

/-- **THE CHILD AT A STEP** is the tree of what is left of the patterns with that step. -/
theorem childAt_grow (R : List (List ByteString × IHandler F)) (st : PatternStep) :
    ∀ n : ContextTrieNode F, (grow R n).childAt st
      = if after R st = [] then n.childAt st
        else some (grow (after R st) ((n.childAt st).getD (fresh (leadSegment R st)))) := by
  induction R with
  | nil => exact fun _ => rfl
  | cons r R ih =>
      intro n
      obtain ⟨ps, y⟩ := r
      show (grow R (n.visit (ps, y))).childAt st = _
      rw [ih]
      cases ps with
      | nil =>
          rw [childAt_visit_nil, after_nil_cons]
          rfl
      | cons seg segs =>
          rw [childAt_visit_cons, after_cons]
          by_cases hst : stepOf seg = st
          · have hfirst : leadSegment ((seg :: segs, y) :: R) st = seg := by
              simp [leadSegment, hst]
            rw [if_pos hst.symm, if_pos hst, if_neg (List.cons_ne_nil _ _), hfirst]
            split
            · rename_i hnone
              rw [hnone]
              rfl
            · rfl
          · have hfirst : leadSegment ((seg :: segs, y) :: R) st = leadSegment R st := by
              simp [leadSegment, hst]
            have hst' : ¬ st = stepOf seg := fun heq => hst heq.symm
            rw [if_neg hst', if_neg hst, hfirst]

/-- A node without children or handler. -/
def Leaf (n : ContextTrieNode F) : Prop := (∀ st, n.childAt st = none) ∧ n.handler = none

theorem leaf_new (segment : ByteString) (nodeType : TrieNodeType) (paramName : ByteString) :
    Leaf (new segment nodeType paramName : ContextTrieNode F) := by
  refine ⟨?_, rfl⟩
  intro st
  cases st with
  | literal seg => rfl
  | param => rfl
  | rest => rfl

theorem leaf_fresh (seg : ByteString) : Leaf (fresh seg : ContextTrieNode F) := by
  rw [fresh]
  split
  · exact leaf_new ..
  · exact leaf_new ..
  · exact leaf_new ..

/-- A step that some pattern has. -/
theorem childAt_some {R : List (List ByteString × IHandler F)} {n : ContextTrieNode F}
    (hn : Leaf n) {st : PatternStep} (h : after R st ≠ []) :
    (grow R n).childAt st = some (grow (after R st) (fresh (leadSegment R st))) := by
  rw [childAt_grow, if_neg h, hn.1]
  rfl

/-- A step that no pattern has. -/
theorem childAt_none {R : List (List ByteString × IHandler F)} {n : ContextTrieNode F}
    (hn : Leaf n) {st : PatternStep} (h : after R st = []) : (grow R n).childAt st = none := by
  rw [childAt_grow, if_pos h, hn.1]

theorem descend_cons (seg : ByteString) (segs : List ByteString) (n : ContextTrieNode F)
    (params : InsertionMap ByteString ByteString) :
    descend (seg :: segs) n params
      = match n.childAt (.literal seg) with
        | some child => descend segs child params
        | none =>
          match n.childAt .param with
          | some child => descend segs child (params.insert child.paramName seg)
          | none => (n.childAt .rest).map (fun child => (child, params)) := rfl

/-- A node made for a pattern has the handler of the last pattern that ends there. -/
theorem handler_made {R : List (List ByteString × IHandler F)} {n : ContextTrieNode F}
    (hn : Leaf n) {h : IHandler F} : (grow R n).handler = some h ↔ LastOf R [] h := by
  rw [handler_grow, hn.2]
  exact or_iff_left (fun hself => absurd hself.2 (by rintro ⟨⟩))

/-- **WHAT THE DESCENT FINDS** is the last registration of a matching pattern that has no rival, and
    it gathers the segments under the names of the first patterns that came along. -/
theorem descend_grow {h : IHandler F} {P : InsertionMap ByteString ByteString} :
    ∀ (ss : List ByteString) (R : List (List ByteString × IHandler F)) (n : ContextTrieNode F)
      (params : InsertionMap ByteString ByteString), Leaf n →
      ((∃ c, descend ss (grow R n) params = some (c, P) ∧ c.handler = some h) ↔
        Finds R params ss h P) := by
  intro ss
  induction ss with
  | nil =>
      intro R n params hn
      rw [finds_nil, ← handler_made hn]
      constructor
      · rintro ⟨c, hc, hhandler⟩
        obtain ⟨rfl, rfl⟩ := Prod.mk.inj (Option.some.inj hc)
        exact ⟨hhandler, rfl⟩
      · rintro ⟨hhandler, rfl⟩
        exact ⟨_, rfl, hhandler⟩
  | cons s ss ih =>
      intro R n params hn
      rw [descend_cons]
      by_cases hliteral : after R (.literal s) = []
      · rw [childAt_none hn hliteral]
        by_cases hparam : after R .param = []
        · rw [childAt_none hn hparam, finds_rest hliteral hparam,
            ← handler_made (leaf_fresh (leadSegment R .rest))]
          show (∃ c, ((grow R n).childAt .rest).map (fun child => (child, params)) = some (c, P) ∧
            _) ↔ _
          by_cases hrest : after R .rest = []
          · rw [childAt_none hn hrest, hrest]
            constructor
            · rintro ⟨c, hc, -⟩
              cases hc
            · rintro ⟨hhandler, -⟩
              have hself := (leaf_fresh (leadSegment R .rest)).2.symm.trans hhandler
              cases hself
          · rw [childAt_some hn hrest]
            constructor
            · rintro ⟨c, hc, hhandler⟩
              obtain ⟨rfl, rfl⟩ := Prod.mk.inj (Option.some.inj hc)
              exact ⟨hhandler, rfl⟩
            · rintro ⟨hhandler, rfl⟩
              exact ⟨_, rfl, hhandler⟩
        · have hname : (grow (after R .param) (fresh (leadSegment R .param))).paramName
              = paramNameOf (leadSegment R .param) := by
            rw [paramName_grow, fresh, stepOf_leadSegment hparam]
            rfl
          rw [childAt_some hn hparam, finds_param hliteral hparam, ← hname]
          exact ih _ _ _ (leaf_fresh _)
      · rw [childAt_some hn hliteral, finds_literal hliteral]
        exact ih _ _ _ (leaf_fresh _)

end ContextTrieNode

/-! ## Runs of a router -/

inductive TrieCall (F : Type) where
  | addRoute (method path : ByteString) (handler : IHandler F)
  | matchRoute (method path : ByteString)

namespace ContextTrieRouter

open ContextTrieNode

/-- One call, with the time the clock shows. -/
def callStep (tr : ContextTrieRouter F) (i : TrieCall F × Int) :
    ContextTrieRouter F × Option (ContextRouteMatch F) :=
  match i.1 with
  | .addRoute method path handler => (tr.addRoute method path handler, none)
  | .matchRoute method path => tr.matchRoute method path i.2

/-- The patterns registered for a method, with their handlers. -/
def registered (method : ByteString) (calls : List (TrieCall F × Int)) :
    List (ByteString × IHandler F) :=
  calls.filterMap (fun i => match i.1 with
    | .addRoute m path handler => if m = method then some (path, handler) else none
    | .matchRoute _ _ => none)

/-- The patterns that have a node: `/` has no segment, and so none. -/
def tableOf (R : List (ByteString × IHandler F)) : List (List ByteString × IHandler F) :=
  (R.map (fun r => (routeSegments r.1, r.2))).filter (fun r => r.1 ≠ [])

theorem registered_concat (method : ByteString) (calls : List (TrieCall F × Int))
    (i : TrieCall F × Int) :
    registered method (calls ++ [i]) = registered method calls ++ registered method [i] :=
  List.filterMap_append

theorem mem_tableOf {R : List (ByteString × IHandler F)} {ps : List ByteString}
    {h : IHandler F} :
    (ps, h) ∈ tableOf R ↔ ps ≠ [] ∧ ∃ path, (path, h) ∈ R ∧ routeSegments path = ps := by
  rw [tableOf, List.mem_filter, List.mem_map]
  constructor
  · rintro ⟨⟨⟨path, h'⟩, hr, heq⟩, hne⟩
    obtain ⟨rfl, rfl⟩ := Prod.mk.inj heq
    exact ⟨of_decide_eq_true hne, path, hr, rfl⟩
  · rintro ⟨hne, path, hr, rfl⟩
    exact ⟨⟨(path, h), hr, rfl⟩, decide_eq_true hne⟩

/-- The tree of what was registered for a method. -/
def treeOf (R : List (ByteString × IHandler F)) : ContextTrieNode F :=
  grow (tableOf R) (.new [] .static [])

/-- One registration more, one turn of the loop more. -/
theorem treeOf_concat (R : List (ByteString × IHandler F)) (path : ByteString)
    (handler : IHandler F) :
    treeOf (R ++ [(path, handler)]) = (treeOf R).addSegments handler (routeSegments path) := by
  have hsplit : tableOf (R ++ [(path, handler)])
      = tableOf R ++ tableOf [(path, handler)] := by
    rw [tableOf, List.map_append, List.filter_append]
    rfl
  rw [treeOf, hsplit, grow, List.foldl_append]
  show (tableOf [(path, handler)]).foldl visit (treeOf R) = _
  cases hsegs : routeSegments path with
  | nil =>
      have hnone : tableOf [(path, handler)] = [] := by simp [tableOf, hsegs]
      rw [hnone]
      rfl
  | cons seg segs =>
      have hone : tableOf [(path, handler)] = [(seg :: segs, handler)] := by
        simp [tableOf, hsegs]
      rw [hone]
      rfl

/-- The trees are those of the registrations, and only paths that were looked up are cached. -/
structure Planted (calls : List (TrieCall F × Int)) (tr : ContextTrieRouter F) : Prop where
  trees  : ∀ method, tr.methodTrees.get? method
    = if registered method calls = [] then none else some (treeOf (registered method calls))
  cached : tr.cache.Holds (fun path _ => ∃ method now, (.matchRoute method path, now) ∈ calls)

theorem planted_new (start : Int) : Planted [] (new start : ContextTrieRouter F) :=
  ⟨fun _ => rfl, ContextLRUCache.holds_new _ _ _⟩

theorem Planted.addRoute {calls : List (TrieCall F × Int)} {tr : ContextTrieRouter F}
    (h : Planted calls tr) (method path : ByteString) (handler : IHandler F) (now : Int) :
    Planted (calls ++ [(.addRoute method path handler, now)]) (tr.addRoute method path handler) := by
  refine ⟨?_, h.cached.mono ?_⟩
  · intro m
    show (tr.methodTrees.insert method _).get? m = _
    rw [InsertionMap.get?_insert, registered_concat]
    by_cases hm : m = method
    · subst hm
      have hone : registered m [(TrieCall.addRoute m path handler, now)] = [(path, handler)] := by
        simp [registered]
      rw [if_pos rfl, hone, if_neg (by simp), treeOf_concat, h.trees]
      by_cases hnone : registered m calls = []
      · rw [if_pos hnone, hnone]
        rfl
      · rw [if_neg hnone]
        rfl
    · have hone : registered m [(TrieCall.addRoute method path handler, now)] = [] := by
        simp [registered, Ne.symm hm]
      rw [if_neg hm, hone, List.append_nil]
      exact h.trees m
  · rintro p v ⟨m, t, hmem⟩
    exact ⟨m, t, List.mem_append_left _ hmem⟩

theorem Planted.matchRoute {calls : List (TrieCall F × Int)} {tr : ContextTrieRouter F}
    (h : Planted calls tr) (method path : ByteString) (now : Int) :
    Planted (calls ++ [(.matchRoute method path, now)]) (tr.matchRoute method path now).1 := by
  have htrees : (tr.matchRoute method path now).1.methodTrees = tr.methodTrees := by
    rw [ContextTrieRouter.matchRoute]
    dsimp only
    split
    · rfl
    · split
      · rfl
      · rfl
  have hcached := (ContextLRUCache.holds_get h.cached path now).1.mono
    (Q := fun p _ => ∃ m t, (.matchRoute m p, t) ∈ calls ++ [(.matchRoute method path, now)])
    (by
      rintro p v ⟨m, t, hmem⟩
      exact ⟨m, t, List.mem_append_left _ hmem⟩)
  refine ⟨?_, ?_⟩
  · intro m
    have hnone : registered m [(TrieCall.matchRoute method path, now)]
        = ([] : List (ByteString × IHandler F)) := rfl
    rw [htrees, registered_concat, hnone, List.append_nil]
    exact h.trees m
  · rw [ContextTrieRouter.matchRoute]
    dsimp only
    split
    · exact hcached
    · split
      · exact hcached
      · refine ContextLRUCache.holds_put hcached ⟨method, now, ?_⟩ now
        exact List.mem_append_right _ (List.mem_singleton_self _)

theorem Planted.callStep {calls : List (TrieCall F × Int)} {tr : ContextTrieRouter F}
    (h : Planted calls tr) (i : TrieCall F × Int) :
    Planted (calls ++ [i]) (callStep tr i).1 := by
  obtain ⟨call, now⟩ := i
  cases call with
  | addRoute method path handler => exact h.addRoute method path handler now
  | matchRoute method path => exact h.matchRoute method path now

/-- **RUNS.**  Whatever is registered and looked up, the trees are those of the registrations. -/
theorem planted_final (start : Int) (calls : List (TrieCall F × Int)) :
    Planted calls (final callStep (new start) calls) :=
  final_inv (fun _ _ i h => h.callStep i) calls [] _ (planted_new start)

/-- A path that was not looked up is answered from the tree. -/
theorem Planted.searched {calls : List (TrieCall F × Int)} {tr : ContextTrieRouter F}
    (h : Planted calls tr) {method path : ByteString} (now : Int)
    (hnew : ∀ m t, (.matchRoute m path, t) ∉ calls) :
    (tr.matchRoute method path now).2 = tr.searchTree method path := by
  have hmiss : (tr.cache.get path now).1 = none := by
    cases hget : (tr.cache.get path now).1 with
    | none => rfl
    | some v =>
        obtain ⟨m, t, hmem⟩ := (ContextLRUCache.holds_get h.cached path now).2 v hget
        exact absurd hmem (hnew m t)
  rw [ContextTrieRouter.matchRoute]
  dsimp only
  rw [hmiss]
  dsimp only
  have hsame : ({ tr with cache := (tr.cache.get path now).2 } : ContextTrieRouter F).searchTree
      method path = tr.searchTree method path := rfl
  rw [hsame]
  cases tr.searchTree method path with
  | none => rfl
  | some result => rfl

/-- What the tree answers is what the search finds in the table. -/
theorem Planted.searchTree_iff {calls : List (TrieCall F × Int)} {tr : ContextTrieRouter F}
    (h : Planted calls tr) {method path : ByteString} {handler : IHandler F}
    {P : InsertionMap ByteString ByteString} :
    tr.searchTree method path = some ⟨handler, P, [], []⟩ ↔
      Finds (tableOf (registered method calls)) .empty (routeSegments path) handler P := by
  have hdescend := descend_grow (routeSegments path) (tableOf (registered method calls))
    (ContextTrieNode.new [] .static []) .empty (h := handler) (P := P) (leaf_new ..)
  rw [← hdescend, searchTree, h.trees]
  by_cases hnone : registered method calls = []
  · rw [if_pos hnone, hnone]
    constructor
    · rintro ⟨⟩
    · intro hfound
      obtain ⟨ps, hlast, -⟩ := hdescend.mp (hnone ▸ hfound)
      rw [hnone] at hlast
      cases hlast.mem
  · rw [if_neg hnone]
    dsimp only
    rw [treeOf]
    cases descend (routeSegments path)
        (grow (tableOf (registered method calls)) (.new [] .static [])) .empty with
    | none =>
        constructor
        · rintro ⟨⟩
        · rintro ⟨c, hc, -⟩
          cases hc
    | some found =>
        obtain ⟨current, params⟩ := found
        dsimp only
        rw [Option.map_eq_some_iff]
        constructor
        · rintro ⟨handler', hhandler, heq⟩
          cases heq
          exact ⟨current, rfl, hhandler⟩
        · rintro ⟨c, hc, hhandler⟩
          cases hc
          exact ⟨handler, hhandler, rfl⟩

/-! ## Completeness -/

/-- There is an answer exactly when some registered pattern is for the path, and its parameters
    are those of a pattern registered with its handler. -/
def CompleteAt (R : List (ByteString × IHandler F)) (path : ByteString)
    (answer : Option (ContextRouteMatch F)) : Prop :=
  (answer.isSome = true ↔ ∃ r ∈ R, Matches (routeSegments r.1) (routeSegments path)) ∧
    ∀ m, answer = some m → ∃ r ∈ R, r.2 = m.handler ∧
      Matches (routeSegments r.1) (routeSegments path) ∧
      ∀ name seg, m.params.get? name = some seg ↔
        (name, seg) ∈ bound (routeSegments r.1) (routeSegments path)

/-- If a registered pattern is for the path, then one with at least one segment is that has no
    rival, and the handler registered last for its steps was registered with a pattern for the
    path whose parameters are those that the first patterns with these steps name. -/
def ClearlyRouted (R : List (ByteString × IHandler F)) (path : ByteString) : Prop :=
  (∃ r ∈ R, Matches (routeSegments r.1) (routeSegments path)) →
    ∃ ps handler, LastOf (tableOf R) ps handler ∧ Matches ps (routeSegments path) ∧
      Unrivalled (tableOf R) ps (routeSegments path) ∧
      ∃ r ∈ R, r.2 = handler ∧ Matches (routeSegments r.1) (routeSegments path) ∧
        ∀ pair, pair ∈ settled (named (tableOf R) ps (routeSegments path)) ↔
          pair ∈ bound (routeSegments r.1) (routeSegments path)

theorem get?_gather_empty {pairs : List (ByteString × ByteString)} {name seg : ByteString} :
    (gather .empty pairs).get? name = some seg ↔ (name, seg) ∈ settled pairs := by
  rw [get?_gather]
  exact or_iff_left (fun h => absurd h.2 (by rintro ⟨⟩))

/-- An answer of the search is complete exactly when the path is clearly routed. -/
theorem completeAt_iff {R : List (ByteString × IHandler F)} {path : ByteString}
    {answer : Option (ContextRouteMatch F)} (hplain : ∀ m, answer = some m → m.path = [] ∧
      m.basePath = [])
    (hanswer : ∀ handler P, answer = some ⟨handler, P, [], []⟩ ↔
      Finds (tableOf R) .empty (routeSegments path) handler P) :
    CompleteAt R path answer ↔ ClearlyRouted R path := by
  have hfinds : ∀ m, answer = some m →
      Finds (tableOf R) .empty (routeSegments path) m.handler m.params := by
    intro m hm
    obtain ⟨hpath, hbase⟩ := hplain m hm
    refine (hanswer _ _).mp ?_
    rw [hm]
    obtain ⟨handler, params, p, b⟩ := m
    obtain rfl : p = [] := hpath
    obtain rfl : b = [] := hbase
    rfl
  constructor
  · rintro ⟨hsome, hparams⟩ hexists
    obtain ⟨m, hm⟩ := Option.isSome_iff_exists.mp (hsome.mpr hexists)
    obtain ⟨ps, hlast, hmatch, hfree, hgather⟩ := hfinds m hm
    obtain ⟨r, hr, hhandler, hmatch', hbound⟩ := hparams m hm
    refine ⟨ps, m.handler, hlast, hmatch, hfree, r, hr, hhandler, hmatch', ?_⟩
    rintro ⟨name, seg⟩
    rw [← get?_gather_empty, ← hgather]
    exact hbound name seg
  · intro hclear
    have hmatched : ∀ m, answer = some m →
        ∃ r ∈ R, Matches (routeSegments r.1) (routeSegments path) := by
      intro m hm
      obtain ⟨ps, hlast, hmatch, -⟩ := hfinds m hm
      obtain ⟨-, p, hr, rfl⟩ := mem_tableOf.mp hlast.mem
      exact ⟨_, hr, hmatch⟩
    refine ⟨?_, ?_⟩
    · constructor
      · intro hsome
        obtain ⟨m, hm⟩ := Option.isSome_iff_exists.mp hsome
        exact hmatched m hm
      · intro hexists
        obtain ⟨ps, handler, hlast, hmatch, hfree, -⟩ := hclear hexists
        rw [(hanswer handler _).mpr ⟨ps, hlast, hmatch, hfree, rfl⟩]
        rfl
    · intro m hm
      obtain ⟨ps, handler, hlast, hmatch, hfree, r, hr, hhandler, hmatch', hbound⟩ :=
        hclear (hmatched m hm)
      have hsame := (hanswer handler _).mpr ⟨ps, hlast, hmatch, hfree, rfl⟩
      rw [hm] at hsame
      cases hsame
      refine ⟨r, hr, hhandler, hmatch', ?_⟩
      intro name seg
      exact get?_gather_empty.trans (hbound (name, seg))

theorem searchTree_plain {tr : ContextTrieRouter F} {method path : ByteString}
    {m : ContextRouteMatch F} (h : tr.searchTree method path = some m) :
    m.path = [] ∧ m.basePath = [] := by
  rw [searchTree] at h
  split at h
  · cases h
  · split at h
    · cases h
    · obtain ⟨handler, -, rfl⟩ := Option.map_eq_some_iff.mp h
      exact ⟨rfl, rfl⟩

/-- **COMPLETENESS.**  After any registrations and lookups, the first lookup of a path is complete
    exactly when the path is clearly routed among the patterns of its method. -/
theorem first_lookup_complete_iff (start : Int) (calls : List (TrieCall F × Int))
    (method path : ByteString) (now : Int) (hnew : ∀ m t, (.matchRoute m path, t) ∉ calls) :
    CompleteAt (registered method calls) path
        (callStep (final callStep (new start) calls) (.matchRoute method path, now)).2
      ↔ ClearlyRouted (registered method calls) path := by
  have hplanted := planted_final start calls
  have hsearch : ((final callStep (new start) calls).matchRoute method path now).2
      = (final callStep (new start) calls).searchTree method path := hplanted.searched now hnew
  show CompleteAt _ path ((final callStep (new start) calls).matchRoute method path now).2 ↔ _
  rw [hsearch]
  exact completeAt_iff (fun m hm => searchTree_plain hm) (fun _ _ => hplanted.searchTree_iff)

/-- A route with one parameter, and no other. -/
def userRoute : List (TrieCall Nat × Int) :=
  [(.addRoute (ascii "GET") (ascii "/users/:id") ⟨ascii "/users/:id", 1⟩, 0)]

theorem first_lookup_complete_users :
    CompleteAt (registered (ascii "GET") userRoute) (ascii "/users/7")
      (callStep (final callStep (new 0) userRoute)
        (.matchRoute (ascii "GET") (ascii "/users/7"), 1)).2 := by
  refine (first_lookup_complete_iff 0 userRoute (ascii "GET") (ascii "/users/7") 1 ?_).mpr ?_
  · intro m t hmem
    cases List.mem_singleton.mp hmem
  · have hmatch : Matches (routeSegments (ascii "/users/:id")) (routeSegments (ascii "/users/7")) :=
      .literal rfl (.param rfl .nil)
    intro _
    refine ⟨routeSegments (ascii "/users/:id"), ⟨ascii "/users/:id", 1⟩, ⟨[], [], rfl, ?_⟩, hmatch,
      ?_, _, List.mem_singleton_self _, rfl, hmatch, fun pair => Iff.rfl⟩
    · intro r hr
      cases hr
    · intro r hr
      rw [List.mem_singleton.mp hr]
      exact not_rivals_self

/-- `/a/b` and `/:x/c`: the static child is taken for `/a/c` and leads nowhere. -/
def besideLiteral : List (TrieCall Nat × Int) :=
  [(.addRoute (ascii "GET") (ascii "/a/b") ⟨ascii "/a/b", 1⟩, 0),
    (.addRoute (ascii "GET") (ascii "/:x/c") ⟨ascii "/:x/c", 2⟩, 0)]

theorem not_complete_beside_literal :
    ¬ CompleteAt (registered (ascii "GET") besideLiteral) (ascii "/a/c")
      (callStep (final callStep (new 0) besideLiteral)
        (.matchRoute (ascii "GET") (ascii "/a/c"), 1)).2 := by
  rintro ⟨hsome, -⟩
  have hmatch : Matches (routeSegments (ascii "/:x/c")) (routeSegments (ascii "/a/c")) :=
    .param rfl (.literal rfl .nil)
  have hanswer := hsome.mpr ⟨(ascii "/:x/c", ⟨ascii "/:x/c", 2⟩), ?_, hmatch⟩
  · cases hanswer
  · exact List.mem_cons_of_mem _ (List.mem_cons_self ..)

end ContextTrieRouter

end VHono
