import VHono.CacheEntries
import VHono.MachineRuns

/-! # What the LRU cache remembers

    The cache as a machine fed with calls and times.  Every call refines the
    call on a plain list (`Listed.callStep`), so the answers, the evictions and
    the order of the entries are those the history of the calls demands. -/

namespace VHono

open ByteString DoublyLinked RecencyCache MachineRuns

variable {V : Type}

namespace ContextLRUCache

/-- One call, with the time the clock shows. -/
def callStep (c : ContextLRUCache V) (i : Call ByteString V × Int) :
    ContextLRUCache V × Option V :=
  match i.1 with
  | .get key => ((c.get key i.2).2, (c.get key i.2).1)
  | .put key value => (c.put key value i.2, none)
  | .cleanup => (c.forceCleanupExpired i.2, none)
  | .clear => (c.clear i.2, none)

variable {c : ContextLRUCache V} {cells : List (Nat × Entry ByteString V)} {now : Int}

theorem length_entriesOf (cells : List (Nat × Entry ByteString V)) :
    (entriesOf cells).length = cells.length := List.length_map ..

theorem fresh_entriesOf (ttl now : Int) (cells : List (Nat × Entry ByteString V)) :
    fresh ttl now (entriesOf cells)
      = entriesOf (cells.filter (fun x => ¬ Idle ttl x.2.last now)) := by
  rw [fresh, entriesOf, entriesOf, List.filter_map]
  rfl

/-- The list does not depend on the time of the last cleanup. -/
theorem Listed.cleaned (h : Listed c cells) (now : Int) :
    Listed { c with lastCleanup := now } cells where
  chained := ⟨h.chained.nodup, h.chained.inHeap, h.chained.seg, h.chained.head, h.chained.tail⟩
  nodes := h.nodes
  mapped := h.mapped
  named := h.named
  size := h.size

/-- `c` is the plain cache `s` in nodes. -/
def Implements (c : ContextLRUCache V) (cfg : Config) (s : Store ByteString V) : Prop :=
  c.config = cfg ∧ ∃ cells, Listed c cells ∧ s = storeOf c cells

theorem Listed.implements {cells : List (Nat × Entry ByteString V)} (h : Listed c cells)
    {cfg : Config} (hcfg : c.config = cfg) {s : Store ByteString V}
    (hentries : s.entries = entriesOf cells) (hswept : s.lastSweep = c.lastCleanup) :
    Implements c cfg s := by
  refine ⟨hcfg, cells, h, ?_⟩
  obtain ⟨entries, lastSweep⟩ := s
  rw [storeOf, ← hentries, ← hswept]

variable {cfg : Config} {s : Store ByteString V}

theorem Implements.cleanup (h : Implements c cfg s) (now : Int) :
    Implements (c.cleanupExpiredEntries now) cfg
      { s with entries := fresh cfg.ttl now s.entries } := by
  obtain ⟨rfl, cells, hlisted, rfl⟩ := h
  obtain ⟨hconfig, hcleaned⟩ := sameSettings_cleanupExpiredEntries c now
  exact (hlisted.cleanupExpiredEntries now).implements hconfig (fresh_entriesOf ..) hcleaned.symm

theorem Implements.sweep (h : Implements c cfg s) (now : Int) :
    Implements (c.cleanupExpiredIfNeeded now) cfg (sweep cfg s now) := by
  have hclean := h.cleanup now
  obtain ⟨rfl, cells, hlisted, rfl⟩ := h
  rw [cleanupExpiredIfNeeded, RecencyCache.sweep]
  show Implements _ _ (if now - c.lastCleanup > c.cleanupInterval then _ else _)
  split
  · obtain ⟨hconfig, cells', hcells', hs⟩ := hclean
    exact (hcells'.cleaned now).implements hconfig (congrArg Store.entries hs) rfl
  · exact ⟨rfl, cells, hlisted, rfl⟩

/-- **GET.**  The nodes follow the plain list, and so does the answer. -/
theorem Implements.get (h : Implements c cfg s) (key : ByteString) (now : Int) :
    Implements (c.get key now).2 cfg (step cfg s (.get key, now)).1 ∧
      (c.get key now).1 = (step cfg s (.get key, now)).2 := by
  obtain ⟨hconfig, cells, hlisted, hs⟩ := h.sweep now
  have hcleaned : (RecencyCache.sweep cfg s now).lastSweep
      = (c.cleanupExpiredIfNeeded now).lastCleanup := congrArg Store.lastSweep hs
  have hentries : (RecencyCache.sweep cfg s now).entries = entriesOf cells :=
    congrArg Store.entries hs
  rw [ContextLRUCache.get]
  generalize c.cleanupExpiredIfNeeded now = d at hlisted hconfig hcleaned
  have httl : d.ttlSeconds = cfg.ttl := congrArg Config.ttl hconfig
  dsimp only
  cases hget : d.cache.get? key with
  | none =>
      have hlookup : lookup (RecencyCache.sweep cfg s now).entries key = none := by
        rw [hentries]
        exact lookup_eq_none_iff.mpr (hlisted.get?_eq_none_iff.mp hget)
      rw [step_get_miss hlookup]
      exact ⟨hlisted.implements hconfig hentries hcleaned, rfl⟩
  | some p =>
      obtain ⟨A, e, B, rfl, rfl⟩ := hlisted.find hget
      obtain ⟨node, hnode, hentry⟩ := Option.map_eq_some_iff.mp hlisted.entry
      have hlookup : lookup (RecencyCache.sweep cfg s now).entries e.key = some e := by
        rw [hentries]
        exact hlisted.lookup_entries
      have hexpired : d.isExpired node now = true ↔ Idle cfg.ttl e.last now := by
        rw [isExpired_iff, httl, ← hentry]
      dsimp only
      rw [hnode]
      dsimp only
      by_cases hidle : Idle cfg.ttl e.last now
      · obtain ⟨hconfig', hcleaned'⟩ := sameSettings_removeNode d p
        rw [if_pos (hexpired.mpr hidle), step_get_stale hlookup hidle]
        refine ⟨hlisted.removeNode.implements (hconfig'.trans hconfig) ?_ ?_, rfl⟩
        · rw [hentries]
          exact hlisted.without_entries
        · exact hcleaned.trans hcleaned'.symm
      · have hvalue : node.value = e.value := congrArg Entry.value hentry
        have htouch := hlisted.touch (f := fun n => { n with lastAccess := now }) e.value now
          (fun _ => ⟨rfl, rfl⟩) (by
            intro n hn
            obtain rfl : node = n := Option.some.inj (hnode.symm.trans hn)
            exact ⟨rfl, hvalue, rfl⟩)
        have hrel := relinked_moveToFront (d.modifyNode p (fun n => { n with lastAccess := now })) p
        rw [if_neg (fun h => hidle (hexpired.mp h)), step_get_hit hlookup hidle]
        refine ⟨htouch.implements (hrel.config.trans hconfig) ?_ ?_, congrArg some hvalue⟩
        · rw [hentries, hlisted.without_entries]
          rfl
        · exact hcleaned.trans hrel.cleaned.symm

/-- **PUT.** -/
theorem Implements.put (h : Implements c cfg s) {key : ByteString} (hkey : key ≠ []) (value : V)
    (now : Int) : Implements (c.put key value now) cfg (step cfg s (.put key value, now)).1 := by
  obtain ⟨hconfig, cells, hlisted, hs⟩ := h.sweep now
  have hcleaned : (RecencyCache.sweep cfg s now).lastSweep
      = (c.cleanupExpiredIfNeeded now).lastCleanup := congrArg Store.lastSweep hs
  have hentries : (RecencyCache.sweep cfg s now).entries = entriesOf cells :=
    congrArg Store.entries hs
  rw [ContextLRUCache.put]
  generalize c.cleanupExpiredIfNeeded now = d at hlisted hconfig hcleaned
  dsimp only
  cases hget : d.cache.get? key with
  | some p =>
      obtain ⟨A, e, B, rfl, rfl⟩ := hlisted.find hget
      have hlookup : lookup (RecencyCache.sweep cfg s now).entries e.key = some e := by
        rw [hentries]
        exact hlisted.lookup_entries
      have htouch := hlisted.touch
        (f := fun n => { n with value := value, lastAccess := now }) value now
        (fun _ => ⟨rfl, rfl⟩) (fun _ _ => ⟨rfl, rfl, rfl⟩)
      have hrel := relinked_moveToFront
        (d.modifyNode p (fun n => { n with value := value, lastAccess := now })) p
      rw [step_put_present hlookup]
      refine htouch.implements (hrel.config.trans hconfig) ?_ ?_
      · rw [hentries, hlisted.without_entries]
        rfl
      · exact hcleaned.trans hrel.cleaned.symm
  | none =>
      have hnew : key ∉ keysOf (entriesOf cells) := hlisted.get?_eq_none_iff.mp hget
      have hlookup : lookup (RecencyCache.sweep cfg s now).entries key = none := by
        rw [hentries]
        exact lookup_eq_none_iff.mpr hnew
      rw [step_put_new hlookup, hentries, hcleaned]
      -- the room is made on both sides
      have hroom : ∃ cells', Listed (if d.size ≥ d.capacity then d.removeTail else d) cells' ∧
          entriesOf cells' = makeRoom cfg (entriesOf cells) ∧
          SameSettings d (if d.size ≥ d.capacity then d.removeTail else d) := by
        have hcapacity : d.capacity = cfg.capacity := congrArg Config.capacity hconfig
        rw [makeRoom, length_entriesOf, hlisted.size, hcapacity]
        by_cases hfull : cfg.capacity ≤ cells.length
        · rw [if_pos hfull, if_pos hfull]
          cases cells using List.reverseRecOn with
          | nil =>
              have htail : d.removeTail = d := by
                rw [removeTail, hlisted.chained.tail]
                rfl
              rw [htail]
              exact ⟨[], hlisted, rfl, SameSettings.refl d⟩
          | append_singleton A x =>
              refine ⟨A, hlisted.removeTail, ?_, sameSettings_removeTail d⟩
              rw [entriesOf, entriesOf, List.map_append]
              exact (List.dropLast_concat ..).symm
        · rw [if_neg hfull, if_neg hfull]
          exact ⟨cells, hlisted, rfl, SameSettings.refl d⟩
      obtain ⟨cells', hlisted', hentries', hsame⟩ := hroom
      have hget' : (if d.size ≥ d.capacity then d.removeTail else d).cache.get? key = none := by
        refine hlisted'.get?_eq_none_iff.mpr ?_
        rw [hentries', makeRoom]
        split
        · intro hmem
          exact hnew (List.Sublist.subset ((List.dropLast_sublist _).map _) hmem)
        · exact hnew
      dsimp only
      generalize (if d.size ≥ d.capacity then d.removeTail else d) = e at hlisted' hget' hsame ⊢
      obtain ⟨hconfig', hcleaned'⟩ := hsame
      have hinserted := hlisted'.insertNew hkey hget' value now rfl rfl
      have hrel := relinked_addToFront ({ e with
        heap := e.heap ++ [newNode key value now]
        cache := e.cache.insert key e.heap.length } : ContextLRUCache V) e.heap.length
      refine hinserted.implements ?_ ?_ ?_
      · exact (hrel.config.trans hconfig').trans hconfig
      · rw [← hentries']
        rfl
      · exact (hrel.cleaned.trans hcleaned').symm

/-- **CLEAR.** -/
theorem Implements.clear (h : Implements c cfg s) (now : Int) :
    Implements (c.clear now) cfg ⟨[], now⟩ := by
  obtain ⟨rfl, -⟩ := h
  refine ⟨(sameSettings_wipeFrom _ c.head c).1, [], ?_, rfl⟩
  exact {
    chained := Chained.nil rfl rfl
    nodes := fun _ hx => absurd hx List.not_mem_nil
    mapped := by
      intro k p
      constructor
      · intro hget
        have hempty : (c.clear now).cache = .empty := rfl
        rw [hempty] at hget
        cases hget
      · rintro ⟨x, hx, -⟩
        exact absurd hx List.not_mem_nil
    named := fun _ hx => absurd hx List.not_mem_nil
    size := rfl }

/-- **ONE CALL** on the nodes is the call on the plain list. -/
theorem Implements.callStep (h : Implements c cfg s) {i : Call ByteString V × Int}
    (hkey : i.1.key? ≠ some []) :
    Implements (callStep c i).1 cfg (step cfg s i).1 ∧
      (ContextLRUCache.callStep c i).2 = (step cfg s i).2 := by
  obtain ⟨call, now⟩ := i
  cases call with
  | get key => exact h.get key now
  | put key value =>
      refine ⟨h.put (fun heq => hkey (congrArg some heq)) value now, ?_⟩
      show none = (step cfg s (.put key value, now)).2
      cases hlookup : lookup (RecencyCache.sweep cfg s now).entries key with
      | some e => rw [step_put_present hlookup]
      | none => rw [step_put_new hlookup]
  | cleanup => exact ⟨h.cleanup now, rfl⟩
  | clear => exact ⟨h.clear now, rfl⟩

/-- The mapped keys are the keys of the entries. -/
theorem Implements.get?_eq_none_iff (h : Implements c cfg s) {k : ByteString} :
    c.cache.get? k = none ↔ k ∉ keysOf s.entries := by
  obtain ⟨-, cells, hlisted, rfl⟩ := h
  exact hlisted.get?_eq_none_iff

theorem Implements.mem_keys (h : Implements c cfg s) {k : ByteString} :
    k ∈ c.cache.keys ↔ k ∈ keysOf s.entries := by
  rw [InsertionMap.mem_keys_iff, ← Option.isSome_iff_exists, Option.isSome_iff_ne_none, ne_eq,
    h.get?_eq_none_iff, not_not]

theorem Implements.nodup_keys (h : Implements c cfg s) : (keysOf s.entries).Nodup := by
  obtain ⟨-, cells, hlisted, rfl⟩ := h
  exact hlisted.nodup_keys

/-- As many nodes as entries. -/
theorem Implements.size (h : Implements c cfg s) : c.size = s.entries.length := by
  obtain ⟨-, cells, hlisted, rfl⟩ := h
  rw [hlisted.size, storeOf, length_entriesOf]

/-- **HEALTH.**  The check of the source passes. -/
theorem Listed.isHealthy (h : Listed c cells) : c.isHealthy = true := by
  have hkeys : c.cache.len = cells.length := by
    have hperm : c.cache.keys.Perm (keysOf (entriesOf cells)) := by
      refine (List.perm_ext_iff_of_nodup c.cache.nodup_keys h.nodup_keys).mpr ?_
      intro k
      rw [InsertionMap.mem_keys_iff, ← Option.isSome_iff_exists, Option.isSome_iff_ne_none, ne_eq,
        h.get?_eq_none_iff, not_not]
    have hlength := hperm.length_eq
    rw [keysOf, List.length_map, length_entriesOf, InsertionMap.keys, List.length_map] at hlength
    exact hlength
  rw [ContextLRUCache.isHealthy, h.size, hkeys]
  cases cells with
  | nil =>
      rw [if_pos (by simp), h.chained.head, h.chained.tail]
      rfl
  | cons x cells =>
      have hhead : c.head = some x.1 := h.chained.head
      have htail : c.tail ≠ none := by
        rw [h.chained.tail, List.map_cons, List.getLast?_cons]
        simp
      have hcount : c.countFrom (((x :: cells).length : Int).toNat + 1) 0
          ((x :: cells).map Prod.fst).head? = _ :=
        Chained.countFrom_eq h.chained.seg (by rw [List.length_map]; omega)
          (by rw [h.size, List.length_map]; omega)
      rw [← h.chained.head, List.length_map, h.size] at hcount
      rw [if_neg (by simp; omega), if_neg (by rw [hhead, not_or]; exact ⟨by simp, htail⟩),
        if_neg (by simp), hcount]
      simp

/-- The key that a call throws out: it is mapped once what is out of date is gone, and no longer
    mapped when the call returns. -/
def evictedBy (c : ContextLRUCache V) (i : Call ByteString V × Int) : Option ByteString :=
  match i.1 with
  | .put key value =>
      (c.cleanupExpiredIfNeeded i.2).cache.keys.find?
        (fun k => ((c.put key value i.2).cache.get? k).isNone)
  | _ => none

theorem Implements.evicts_iff (h : Implements c cfg s) {key : ByteString} (hkey : key ≠ [])
    (value : V) (now : Int) (k : ByteString) :
    k ∈ (c.cleanupExpiredIfNeeded now).cache.keys ∧ (c.put key value now).cache.get? k = none
      ↔ evicted cfg s (.put key value, now) = some k := by
  rw [(h.sweep now).mem_keys, (h.put hkey value now).get?_eq_none_iff]
  exact put_removes (h.sweep now).nodup_keys k

theorem Implements.evictedBy (h : Implements c cfg s) {i : Call ByteString V × Int}
    (hkey : i.1.key? ≠ some []) : evictedBy c i = evicted cfg s i := by
  obtain ⟨call, now⟩ := i
  cases call with
  | get key => rfl
  | cleanup => rfl
  | clear => rfl
  | put key value =>
      have hiff := h.evicts_iff (fun heq => hkey (congrArg some heq)) value now
      show List.find? _ _ = _
      cases hevicted : evicted cfg s (.put key value, now) with
      | none =>
          rw [List.find?_eq_none]
          intro k hk hnone
          have := (hiff k).mp ⟨hk, Option.isNone_iff_eq_none.mp hnone⟩
          rw [hevicted] at this
          cases this
      | some old =>
          obtain ⟨hmem, hnone⟩ := (hiff old).mpr hevicted
          cases hfind : List.find? (fun k => ((c.put key value now).cache.get? k).isNone)
              (c.cleanupExpiredIfNeeded now).cache.keys with
          | none =>
              refine absurd ?_ (List.find?_eq_none.mp hfind old hmem)
              exact Option.isNone_iff_eq_none.mpr hnone
          | some k =>
              have hnone' : ((c.put key value now).cache.get? k).isNone = true := by
                simpa using List.find?_some hfind
              have hk := (hiff k).mp ⟨List.mem_of_find?_eq_some hfind,
                Option.isNone_iff_eq_none.mp hnone'⟩
              rw [← hevicted, hk]

/-! ## Runs -/

/-- A call of a run, with the key it threw out. -/
def happeningOf (e : Event (ContextLRUCache V) (Call ByteString V × Int) (Option V)) :
    Happening ByteString V := ⟨e.input.1, e.input.2, evictedBy e.before e.input⟩

/-- The state at every point of the run is consistent and within its capacity, every `get` answers
    what the history demands, and what a `put` throws out is what was used longest ago. -/
structure KeepsHistory (capacity ttl : Int) (c : ContextLRUCache V)
    (calls : List (Call ByteString V × Int)) : Prop where
  healthy : ∀ d ∈ states callStep c calls,
    d.isHealthy = true ∧ d.size ≤ capacity ∧ ∃ cells, Listed d cells
  answers : ∀ B e C, events callStep c calls = B ++ e :: C → ∀ k, e.input.1 = .get k →
    (∀ v, e.output = some v ↔ Held ttl (B.map happeningOf) k v e.input.2) ∧
      (e.output = none ↔ Lost ttl (B.map happeningOf) k e.input.2)
  evictions : ∀ B e C, events callStep c calls = B ++ e :: C → ∀ k v, e.input.1 = .put k v →
    (e.before.cleanupExpiredIfNeeded e.input.2).cache.get? k = none →
    capacity ≤ (e.before.cleanupExpiredIfNeeded e.input.2).size →
    ∃ old ∈ (e.before.cleanupExpiredIfNeeded e.input.2).cache.keys,
      ∀ k' ∈ (e.before.cleanupExpiredIfNeeded e.input.2).cache.keys,
        ((callStep e.before e.input).1.cache.get? k' = none ↔ k' = old) ∧
        (k' ≠ old → UsedAfter (B.map happeningOf) k' old)

/-- What the calls so far leave behind: a plain list that fits and remembers them. -/
def Follows (cfg : Config)
    (B : List (Event (ContextLRUCache V) (Call ByteString V × Int) (Option V)))
    (c : ContextLRUCache V) : Prop :=
  ∃ s, Implements c cfg s ∧ (s.entries.length : Int) ≤ cfg.capacity ∧
    ∀ t, (∀ e ∈ B, e.input.2 ≤ t) → Remembers cfg (B.map happeningOf) t s.entries

theorem Follows.next {B : List (Event (ContextLRUCache V) (Call ByteString V × Int) (Option V))}
    (h : Follows cfg B c) (hpos : 1 ≤ cfg.capacity) {i : Call ByteString V × Int}
    (hkey : i.1.key? ≠ some []) (hclock : ∀ e ∈ B, e.input.2 ≤ i.2)
    (past : List (Call ByteString V × Int)) :
    Follows cfg (B ++ [⟨past, c, i, (callStep c i).2⟩]) (callStep c i).1 := by
  obtain ⟨s, himpl, hlength, hremembers⟩ := h
  refine ⟨(step cfg s i).1, (himpl.callStep hkey).1, step_length hpos hlength, ?_⟩
  intro t ht
  have hlast := ht _ (List.mem_append_right _ (List.mem_singleton_self _))
  have hnext := ((hremembers i.2 hclock).step (s := s) (i := i) (Int.le_refl _)).later hlast
  rw [List.map_append]
  have hhappening : happening cfg s i = happeningOf ⟨past, c, i, (callStep c i).2⟩ := by
    rw [happening, happeningOf, himpl.evictedBy hkey]
  rw [hhappening] at hnext
  exact hnext

/-- What one event owes to the history before it. -/
def HistoryDecides (cfg : Config)
    (B : List (Event (ContextLRUCache V) (Call ByteString V × Int) (Option V)))
    (e : Event (ContextLRUCache V) (Call ByteString V × Int) (Option V)) : Prop :=
  Follows cfg B e.before ∧ e.output = (callStep e.before e.input).2 ∧
    e.input.1.key? ≠ some [] ∧ ∀ e' ∈ B, e'.input.2 ≤ e.input.2

/-- The answer of a `get`. -/
theorem HistoryDecides.answer {B e} (h : HistoryDecides (V := V) cfg B e) {k : ByteString}
    (hget : e.input.1 = .get k) (v : V) :
    e.output = some v ↔ Held cfg.ttl (B.map happeningOf) k v e.input.2 := by
  obtain ⟨⟨s, himpl, -, hremembers⟩, houtput, hkey, hclock⟩ := h
  obtain ⟨past, before, ⟨call, now⟩, output⟩ := e
  obtain rfl : call = .get k := hget
  obtain rfl : output = (callStep before (.get k, now)).2 := houtput
  show (callStep before (.get k, now)).2 = some v ↔ _
  rw [(himpl.callStep hkey).2]
  exact (hremembers now hclock).answer (Int.le_refl _) v

/-- The victim of a `put`. -/
theorem HistoryDecides.victim {B e} (h : HistoryDecides (V := V) cfg B e) (hpos : 1 ≤ cfg.capacity)
    {k : ByteString} {v : V} (hput : e.input.1 = .put k v)
    (hnew : (e.before.cleanupExpiredIfNeeded e.input.2).cache.get? k = none)
    (hfull : cfg.capacity ≤ (e.before.cleanupExpiredIfNeeded e.input.2).size) :
    ∃ old ∈ (e.before.cleanupExpiredIfNeeded e.input.2).cache.keys,
      ∀ k' ∈ (e.before.cleanupExpiredIfNeeded e.input.2).cache.keys,
        ((callStep e.before e.input).1.cache.get? k' = none ↔ k' = old) ∧
        (k' ≠ old → UsedAfter (B.map happeningOf) k' old) := by
  obtain ⟨⟨s, himpl, -, hremembers⟩, -, hkey, hclock⟩ := h
  obtain ⟨past, before, ⟨call, now⟩, output⟩ := e
  obtain rfl : call = .put k v := hput
  have hsweep := himpl.sweep now
  obtain ⟨old, hold, hevicted, hoth⟩ := (hremembers now hclock).evicts_oldest (s := s) (k := k)
    (v := v) (Int.le_refl _) (hsweep.get?_eq_none_iff.mp hnew) (hsweep.size ▸ hfull) hpos
  refine ⟨old, hsweep.mem_keys.mpr hold, ?_⟩
  intro k' hk'
  refine ⟨?_, hoth k' (hsweep.mem_keys.mp hk')⟩
  have hiff := himpl.evicts_iff (fun heq => hkey (congrArg some heq)) v now k'
  rw [hevicted] at hiff
  show (before.put k v now).cache.get? k' = none ↔ _
  constructor
  · intro hnone
    exact (Option.some.inj (hiff.mp ⟨hk', hnone⟩)).symm
  · rintro rfl
    exact (hiff.mpr rfl).2

/-- A fresh cache is the empty list. -/
theorem implements_fresh (capacity ttl interval start : Int) :
    Implements ((newWithTtl capacity ttl start : ContextLRUCache V).setCleanupInterval interval)
      ⟨capacity, ttl, interval⟩ ⟨[], start⟩ := by
  refine ⟨rfl, [], ?_, rfl⟩
  exact {
    chained := Chained.nil rfl rfl
    nodes := fun _ hx => absurd hx List.not_mem_nil
    mapped := by
      intro k p
      constructor
      · rintro ⟨⟩
      · rintro ⟨x, hx, -⟩
        exact absurd hx List.not_mem_nil
    named := fun _ hx => absurd hx List.not_mem_nil
    size := rfl }

/-- **THE CACHE KEEPS ITS HISTORY.**  Whatever is called with keys that are not empty, on a clock
    that does not run back: list, map and size stay consistent and within the capacity, a `get`
    answers with the value last put or, exactly when that was evicted, cleared or unused for too
    long, with nothing, and a new key in a full cache takes the place of the one used longest
    ago. -/
theorem keepsHistory {capacity : Int} (hcapacity : 1 ≤ capacity) (ttl interval start : Int)
    (calls : List (Call ByteString V × Int)) (hkeys : ∀ i ∈ calls, i.1.key? ≠ some [])
    (hclock : (calls.map Prod.snd).Pairwise (· ≤ ·)) :
    KeepsHistory capacity ttl
      ((newWithTtl capacity ttl start).setCleanupInterval interval) calls := by
  have hfresh := implements_fresh (V := V) capacity ttl interval start
  generalize (newWithTtl capacity ttl start : ContextLRUCache V).setCleanupInterval interval = c
    at hfresh
  have hstart : Follows ⟨capacity, ttl, interval⟩ [] c := by
    refine ⟨_, hfresh, ?_, fun t _ => remembers_empty _ t⟩
    show ((0 : Nat) : Int) ≤ capacity
    omega
  -- what is asked of a call holds wherever it stands
  have hasked : ∀ B e C, events callStep c calls = B ++ e :: C →
      (e.output = (callStep e.before e.input).2 ∧ e.input.1.key? ≠ some []) ∧
        ∀ e' ∈ B, e'.input.2 ≤ e.input.2 := by
    intro B e C hsplit
    have hmem : e ∈ events callStep c calls := by
      rw [hsplit]
      exact List.mem_append_right _ (List.mem_cons_self ..)
    have hinputs := map_input_eventsFrom callStep calls [] c
    have hin : e.input ∈ calls := by
      rw [← hinputs]
      exact List.mem_map_of_mem hmem
    refine ⟨⟨eventsFrom_output hmem, hkeys _ hin⟩, ?_⟩
    intro e' he'
    rw [← hinputs] at hclock
    have hsplit' : eventsFrom callStep [] c calls = B ++ e :: C := hsplit
    rw [hsplit', List.map_map, List.map_append] at hclock
    exact (List.pairwise_append.mp hclock).2.2 _ (List.mem_map_of_mem he') _
      (List.mem_cons_self ..)
  have hdecides : ∀ B e C, events callStep c calls = B ++ e :: C →
      HistoryDecides ⟨capacity, ttl, interval⟩ B e := by
    intro B e C hsplit
    refine eventsFrom_history (A := []) (Follows ⟨capacity, ttl, interval⟩)
      (fun B e => (e.output = (callStep e.before e.input).2 ∧ e.input.1.key? ≠ some []) ∧
        ∀ e' ∈ B, e'.input.2 ≤ e.input.2) (HistoryDecides ⟨capacity, ttl, interval⟩) ?_ hstart
      hasked hsplit
    rintro A past d i hfollows ⟨⟨houtput, hkey⟩, hbefore⟩
    exact ⟨hfollows.next hcapacity hkey hbefore past, hfollows, houtput, hkey, hbefore⟩
  constructor
  · intro d hd
    have hall := states_inv
      (fun d => ∃ s, Implements d ⟨capacity, ttl, interval⟩ s ∧ (s.entries.length : Int) ≤ capacity)
      (fun _ i => i.1.key? ≠ some []) (by
        rintro d i ⟨s, himpl, hlength⟩ hkey
        have hfits : ((step ⟨capacity, ttl, interval⟩ s i).1.entries.length : Int)
            ≤ Config.capacity ⟨capacity, ttl, interval⟩ := step_length hcapacity hlength
        exact ⟨_, (himpl.callStep hkey).1, hfits⟩)
        (s := c) ⟨_, hfresh, by show ((0 : Nat) : Int) ≤ capacity; omega⟩ calls
        (by
          intro e he
          obtain ⟨pre, post, hsplit, -⟩ := eventsFrom_split he
          exact hkeys _ (hsplit ▸ List.mem_append_right _ (List.mem_cons_self ..))) d hd
    obtain ⟨s, himpl, hlength⟩ := hall
    have hsize := himpl.size
    obtain ⟨-, cells, hlisted, -⟩ := himpl
    exact ⟨hlisted.isHealthy, by omega, cells, hlisted⟩
  · intro B e C hsplit k hget
    have hanswer := (hdecides B e C hsplit).answer hget
    refine ⟨hanswer, ?_⟩
    rw [lost_iff_not_held, Option.eq_none_iff_forall_ne_some]
    exact forall_congr' (fun v => not_congr (hanswer v))
  · intro B e C hsplit k v hput hnew hfull
    exact (hdecides B e C hsplit).victim hcapacity hput hnew hfull

/-- A cache for one route: the second put throws out the first. -/
theorem keepsHistory_one_route :
    KeepsHistory 1 60 ((newWithTtl 1 60 0).setCleanupInterval 300)
      [(Call.put (ascii "/a") 1, 0), (Call.put (ascii "/b") 2, 1), (Call.get (ascii "/a"), 2)] :=
  keepsHistory (by decide) 60 300 0 _ (by simp [Call.key?]; decide) (by decide)

end ContextLRUCache

end VHono
