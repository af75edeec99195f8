import VHono.TrieCompleteness
import VHono.RecencyHistory

/-! # The cache in front of the tries

    The cache of the trie router is keyed by the path alone and outlives later
    registrations.  What it answers is what the tree answered when the entry was
    made (`LastFill`), under the method of then and the routes of then; so a
    run is transparent exactly when, at every lookup of a path that is still
    cached, those give the answer of now. -/

namespace VHono

open ByteString MachineRuns

variable {F : Type}

namespace ContextTrieRouter

/-- What a router answers that was given these routes and nothing else. -/
def uncachedAnswer (past : List (TrieCall F × Int)) (method path : ByteString) (now : Int) :
    Option (ContextRouteMatch F) :=
  (((registered method past).foldl (fun tr r => tr.addRoute method r.1 r.2)
    (new now)).matchRoute method path now).2

/-- Every lookup answers as a router without a cache would. -/
def Transparent (start : Int) (calls : List (TrieCall F × Int)) : Prop :=
  ∀ e ∈ events callStep (new start) calls, ∀ method path, e.input.1 = .matchRoute method path →
    e.output = uncachedAnswer e.past method path e.input.2

/-- The path is in the cache, and not out of date. -/
def StillCached (e : Event (ContextTrieRouter F) (TrieCall F × Int) (Option (ContextRouteMatch F)))
    (path : ByteString) : Prop :=
  (e.before.cache.get path e.input.2).1.isSome = true

/-- The lookup puts its path into the cache: it was not there, and the routes answer. -/
def Fills (e : Event (ContextTrieRouter F) (TrieCall F × Int) (Option (ContextRouteMatch F)))
    (method path : ByteString) : Prop :=
  e.input.1 = .matchRoute method path ∧ ¬ StillCached e path ∧
    (uncachedAnswer e.past method path e.input.2).isSome = true

/-- At every lookup of a path that is still cached, the routes and the method of the lookup that
    put it there gave the answer that the routes and the method of now give. -/
def Unchanging (start : Int) (calls : List (TrieCall F × Int)) : Prop :=
  ∀ A p D e C, events callStep (new start) calls = A ++ p :: (D ++ e :: C) →
    ∀ method method' path, e.input.1 = .matchRoute method path → StillCached e path →
      Fills p method' path → (∀ q ∈ D, ∀ m, ¬ Fills q m path) →
      uncachedAnswer p.past method' path p.input.2 = uncachedAnswer e.past method path e.input.2

/-- The answer of a tree depends on the routes alone. -/
theorem Planted.searchTree_congr {calls calls' : List (TrieCall F × Int)}
    {tr tr' : ContextTrieRouter F} (h : Planted calls tr) (h' : Planted calls' tr')
    {method : ByteString} (hroutes : registered method calls = registered method calls')
    (path : ByteString) : tr.searchTree method path = tr'.searchTree method path := by
  rw [searchTree, searchTree, h.trees, h'.trees, hroutes]

/-- The routes of a method, registered one after another. -/
theorem planted_routes (method : ByteString) (start : Int) (R : List (ByteString × IHandler F)) :
    Planted (R.map (fun r => (.addRoute method r.1 r.2, start)))
      (R.foldl (fun tr r => tr.addRoute method r.1 r.2) (new start)) := by
  induction R using List.reverseRecOn with
  | nil => exact planted_new start
  | append_singleton R r ih =>
      rw [List.foldl_append, List.map_append]
      exact ih.addRoute method r.1 r.2 start

theorem registered_routes (method : ByteString) (start : Int)
    (R : List (ByteString × IHandler F)) :
    registered method (R.map (fun r => (TrieCall.addRoute method r.1 r.2, start))) = R := by
  induction R with
  | nil => rfl
  | cons r R ih =>
      rw [List.map_cons, registered, List.filterMap_cons]
      simp only [if_pos]
      exact congrArg (r :: ·) ih

/-- **WITHOUT A CACHE** the answer is the tree's. -/
theorem Planted.uncached {calls : List (TrieCall F × Int)} {tr : ContextTrieRouter F}
    (h : Planted calls tr) (method path : ByteString) (now : Int) :
    uncachedAnswer calls method path now = tr.searchTree method path := by
  have hroutes := planted_routes method now (registered method calls)
  have hsame := registered_routes method now (registered method calls)
  rw [uncachedAnswer, hroutes.searched now ?_]
  · exact hroutes.searchTree_congr h hsame path
  · intro m t hmem
    obtain ⟨r, -, hr⟩ := List.mem_map.mp hmem
    cases hr

/-! ## What the cache answers -/

section Lookups

variable {tr : ContextTrieRouter F} {method path : ByteString} {now : Int}

theorem matchRoute_hit {v : ContextRouteMatch F} (h : (tr.cache.get path now).1 = some v) :
    tr.matchRoute method path now = ({ tr with cache := (tr.cache.get path now).2 }, some v) := by
  rw [matchRoute]
  dsimp only
  rw [h]

theorem matchRoute_none (h : (tr.cache.get path now).1 = none)
    (hsearch : tr.searchTree method path = none) :
    tr.matchRoute method path now = ({ tr with cache := (tr.cache.get path now).2 }, none) := by
  have hsame : ContextTrieRouter.searchTree { tr with cache := (tr.cache.get path now).2 }
      method path = none := hsearch
  rw [matchRoute]
  dsimp only
  rw [h, hsame]

theorem matchRoute_fill {v : ContextRouteMatch F} (h : (tr.cache.get path now).1 = none)
    (hsearch : tr.searchTree method path = some v) :
    tr.matchRoute method path now
      = ({ tr with cache := (tr.cache.get path now).2.put path v now }, some v) := by
  have hsame : ContextTrieRouter.searchTree { tr with cache := (tr.cache.get path now).2 }
      method path = some v := hsearch
  rw [matchRoute]
  dsimp only
  rw [h, hsame]

end Lookups

/-- The events of a run of a router. -/
abbrev LookupEvent (F : Type) :=
  Event (ContextTrieRouter F) (TrieCall F × Int) (Option (ContextRouteMatch F))

/-- `v` is what the routes answered at the last lookup that put the path into the cache. -/
def LastFill (B : List (LookupEvent F)) (path : ByteString) (v : ContextRouteMatch F) : Prop :=
  ∃ A p D method, B = A ++ p :: D ∧ Fills p method path ∧
    uncachedAnswer p.past method path p.input.2 = some v ∧ ∀ q ∈ D, ∀ m, ¬ Fills q m path

theorem LastFill.concat {B : List (LookupEvent F)} {path : ByteString} {v : ContextRouteMatch F}
    (h : LastFill B path v) {e : LookupEvent F} (he : ∀ m, ¬ Fills e m path) :
    LastFill (B ++ [e]) path v := by
  obtain ⟨A, p, D, method, rfl, hfills, hanswer, hD⟩ := h
  refine ⟨A, p, D ++ [e], method, by simp, hfills, hanswer, ?_⟩
  intro q hq
  rcases List.mem_append.mp hq with hq | hq
  · exact hD q hq
  · rw [List.mem_singleton.mp hq]
    exact he

/-- **THE CACHE** holds what the routes answered when the entries were made. -/
def Remembering (B : List (LookupEvent F)) (tr : ContextTrieRouter F) : Prop :=
  tr.cache.Holds (LastFill B)

/-- Which lookups make an entry. -/
theorem fills_iff {e : LookupEvent F} (hplanted : Planted e.past e.before)
    {method path m k : ByteString} {now : Int} (hinput : e.input = (.matchRoute method path, now)) :
    Fills e m k ↔ m = method ∧ k = path ∧ (e.before.cache.get path now).1 = none ∧
      (e.before.searchTree method path).isSome = true := by
  rw [Fills, StillCached, hplanted.uncached, hinput]
  constructor
  · rintro ⟨hcall, hmiss, hanswer⟩
    cases hcall
    exact ⟨rfl, rfl, Option.not_isSome_iff_eq_none.mp hmiss, hanswer⟩
  · rintro ⟨rfl, rfl, hmiss, hanswer⟩
    exact ⟨rfl, Option.not_isSome_iff_eq_none.mpr hmiss, hanswer⟩

/-- **ONE CALL.**  The cache goes on to remember. -/
theorem Remembering.step {B : List (LookupEvent F)} {e : LookupEvent F}
    (h : Remembering B e.before) (hplanted : Planted e.past e.before) :
    Remembering (B ++ [e]) (callStep e.before e.input).1 := by
  obtain ⟨past, tr, ⟨call, now⟩, output⟩ := e
  cases call with
  | addRoute method path handler =>
      refine ContextLRUCache.Holds.mono h ?_
      intro p v hlast
      refine hlast.concat ?_
      rintro m ⟨hinput, -⟩
      cases hinput
  | matchRoute method path =>
      have hiff := fun {m k} => fills_iff (m := m) (k := k) hplanted rfl
      have hgot : ContextLRUCache.Holds (LastFill B) (tr.cache.get path now).2 :=
        (ContextLRUCache.holds_get h path now).1
      show Remembering _ (tr.matchRoute method path now).1
      cases hget : (tr.cache.get path now).1 with
      | some v =>
          rw [matchRoute_hit hget]
          refine ContextLRUCache.Holds.mono hgot ?_
          intro p w hlast
          refine hlast.concat ?_
          intro m hfills
          have hmiss := (hiff.mp hfills).2.2.1
          rw [hget] at hmiss
          cases hmiss
      | none =>
          cases hsearch : tr.searchTree method path with
          | none =>
              rw [matchRoute_none hget hsearch]
              refine ContextLRUCache.Holds.mono hgot ?_
              intro p w hlast
              refine hlast.concat ?_
              intro m hfills
              have hanswer := (hiff.mp hfills).2.2.2
              rw [hsearch] at hanswer
              cases hanswer
          | some v =>
              rw [matchRoute_fill hget hsearch]
              refine ContextLRUCache.holds_write hgot ?_ ?_ now
              · refine ⟨B, _, [], method, rfl, hiff.mpr ⟨rfl, rfl, hget, ?_⟩, ?_, ?_⟩
                · rw [hsearch]
                  rfl
                · exact (hplanted.uncached method path now).trans hsearch
                · intro q hq
                  cases hq
              · intro k w hk hlast
                exact hlast.concat (fun m hfills => hk (hiff.mp hfills).2.1)

/-- What an event of a run finds. -/
theorem event_finds (start : Int) (calls : List (TrieCall F × Int)) {A C : List (LookupEvent F)}
    {e : LookupEvent F} (hsplit : events callStep (new start) calls = A ++ e :: C) :
    Planted e.past e.before ∧ Remembering A e.before ∧ e.output = (callStep e.before e.input).2 := by
  have hplanted : ∀ e ∈ events callStep (new start) calls, Planted e.past e.before :=
    events_good (planted_new start) (fun past s i h (_ : True) => ⟨h.callStep i, h⟩)
      (fun _ _ => trivial)
  have hmem : e ∈ events callStep (new start) calls := by
    rw [hsplit]
    exact List.mem_append_right _ (List.mem_cons_self ..)
  have hstart : Remembering [] (new start : ContextTrieRouter F) :=
    ContextLRUCache.holds_new _ 1000 start
  refine ⟨hplanted e hmem, ?_, eventsFrom_output hmem⟩
  refine eventsFrom_history (A := []) (fun A tr => Remembering A tr)
    (fun _ e => Planted e.past e.before) (fun A e => Remembering A e.before) ?_
    hstart ?_ hsplit
  · intro A past tr i h hp
    exact ⟨Remembering.step (e := ⟨past, tr, i, (callStep tr i).2⟩) h hp, h⟩
  · intro B e' C' hB
    refine hplanted e' ?_
    have hB' : events callStep (new start) calls = B ++ e' :: C' := hB
    rw [hB']
    exact List.mem_append_right _ (List.mem_cons_self ..)

/-- Only one lookup put the path into the cache last. -/
theorem LastFill.unique {A D B : List (LookupEvent F)} {p : LookupEvent F}
    {path method : ByteString} {v : ContextRouteMatch F} (h : LastFill B path v)
    (hB : B = A ++ p :: D) (hfills : Fills p method path) (hD : ∀ q ∈ D, ∀ m, ¬ Fills q m path) :
    uncachedAnswer p.past method path p.input.2 = some v := by
  obtain ⟨A', p', D', method', hB', hfills', hanswer, hD'⟩ := h
  rw [hB] at hB'
  obtain ⟨rfl, -⟩ := List.last_unique (fun q => ∃ m, Fills q m path) hB' ⟨method, hfills⟩
    ⟨method', hfills'⟩ (fun q hq ⟨m, hm⟩ => hD q hq m hm) (fun q hq ⟨m, hm⟩ => hD' q hq m hm)
  have hmethod : TrieCall.matchRoute (F := F) method path = .matchRoute method' path :=
    hfills.1.symm.trans hfills'.1
  cases hmethod
  exact hanswer

/-- **TRANSPARENCY.**  The cache cannot be told from none exactly when no entry outlives the answer
    it was made with. -/
theorem transparent_iff (start : Int) (calls : List (TrieCall F × Int)) :
    Transparent start calls ↔ Unchanging start calls := by
  constructor
  · intro htransparent A p D e C hsplit method method' path hcall hcached hfills hD
    have hsplit' : events callStep (new start) calls = (A ++ p :: D) ++ e :: C := by
      rw [hsplit, List.append_assoc]
      rfl
    obtain ⟨hplanted, hremembers, houtput⟩ := event_finds start calls hsplit'
    have hmem : e ∈ events callStep (new start) calls := by
      rw [hsplit']
      exact List.mem_append_right _ (List.mem_cons_self ..)
    obtain ⟨v, hv⟩ := Option.isSome_iff_exists.mp hcached
    have hlast := (ContextLRUCache.holds_get hremembers path e.input.2).2 v hv
    have hhit : e.output = some v := by
      obtain ⟨past, tr, ⟨call, now⟩, output⟩ := e
      obtain rfl : call = .matchRoute method path := hcall
      rw [houtput]
      show (tr.matchRoute method path now).2 = some v
      rw [matchRoute_hit hv]
    rw [hlast.unique rfl hfills hD, ← htransparent e hmem method path hcall, hhit]
  · intro hunchanging e hmem method path hcall
    obtain ⟨B, C, hsplit⟩ := List.append_of_mem hmem
    obtain ⟨hplanted, hremembers, houtput⟩ := event_finds start calls hsplit
    rw [houtput, hplanted.uncached]
    obtain ⟨past, tr, ⟨call, now⟩, output⟩ := e
    obtain rfl : call = .matchRoute method path := hcall
    show (tr.matchRoute method path now).2 = tr.searchTree method path
    cases hget : (tr.cache.get path now).1 with
    | some v =>
        obtain ⟨A, p, D, method', rfl, hfills, hanswer, hD⟩ :=
          (ContextLRUCache.holds_get hremembers path now).2 v hget
        have hcached : StillCached ⟨past, tr, (.matchRoute method path, now), output⟩ path := by
          rw [StillCached, hget]
          rfl
        have hsame := hunchanging A p D _ C (by rw [hsplit, List.append_assoc]; rfl) method method'
          path rfl hcached hfills hD
        rw [matchRoute_hit hget, ← hplanted.uncached method path now]
        exact hanswer.symm.trans hsame
    | none =>
        cases hsearch : tr.searchTree method path with
        | none => rw [matchRoute_none hget hsearch]
        | some v => rw [matchRoute_fill hget hsearch]

/-- A route for GET, asked for under GET and then under POST. -/
def twoMethods : List (TrieCall Nat × Int) :=
  [(.addRoute (ascii "GET") (ascii "/x") ⟨ascii "/x", 1⟩, 0),
    (.matchRoute (ascii "GET") (ascii "/x"), 1), (.matchRoute (ascii "POST") (ascii "/x"), 2)]

theorem not_transparent_two_methods : ¬ Transparent 0 twoMethods := by
  intro h
  have hpost := h _ (List.mem_cons_of_mem _ (List.mem_cons_of_mem _ (List.mem_cons_self ..)))
    (ascii "POST") (ascii "/x") rfl
  cases hpost

end ContextTrieRouter

end VHono
