import VHono.CacheLinks

/-! # The entries of the LRU cache

    `Listed c cells`: the nodes of the list hold the entries of `cells`, and
    the map leads to each of them by its key and nowhere else.  Every operation
    keeps this, and does to the entries what its counterpart on a plain list
    does (`Listed.callStep`). -/

namespace VHono

open ByteString DoublyLinked RecencyCache

variable {V : Type}

namespace ContextLRUCache

/-- The nodes of the list with what they hold, the one used last in front. -/
structure Listed (c : ContextLRUCache V) (cells : List (Nat × Entry ByteString V)) : Prop where
  chained : Chained c (cells.map Prod.fst)
  nodes   : ∀ x ∈ cells, c.entryAt x.1 = some x.2
  mapped  : ∀ k p, c.cache.get? k = some p ↔ ∃ x ∈ cells, x.1 = p ∧ x.2.key = k
  named   : ∀ x ∈ cells, x.2.key ≠ []
  size    : c.size = cells.length

/-- The entries of the nodes, in their order. -/
def entriesOf (cells : List (Nat × Entry ByteString V)) : List (Entry ByteString V) :=
  cells.map Prod.snd

/-- The plain cache with these entries. -/
def storeOf (c : ContextLRUCache V) (cells : List (Nat × Entry ByteString V)) :
    Store ByteString V := ⟨entriesOf cells, c.lastCleanup⟩

variable {c : ContextLRUCache V} {cells A B : List (Nat × Entry ByteString V)} {p : Nat}
  {e : Entry ByteString V} {k : ByteString}

theorem isExpired_iff {node : ContextLRUCacheNode V} {now : Int} :
    c.isExpired node now = true ↔ Idle c.ttlSeconds node.lastAccess now := by
  rw [isExpired, Idle]
  by_cases httl : c.ttlSeconds ≤ 0
  · rw [if_pos httl]
    constructor
    · rintro ⟨⟩
    · rintro ⟨hpos, -⟩
      exact absurd hpos (by omega)
  · rw [if_neg httl, decide_eq_true_iff]
    constructor
    · intro hlong
      exact ⟨by omega, hlong⟩
    · exact fun hidle => hidle.2

theorem mem_keys_entriesOf :
    k ∈ keysOf (entriesOf cells) ↔ ∃ x ∈ cells, x.2.key = k := by
  rw [keysOf, entriesOf, List.map_map, List.mem_map]
  rfl

namespace Listed

/-- One key, one node. -/
theorem key_unique (h : Listed c cells) {x y : Nat × Entry ByteString V} (hx : x ∈ cells)
    (hy : y ∈ cells) (hkey : x.2.key = y.2.key) : x = y := by
  have hgx := (h.mapped x.2.key x.1).mpr ⟨x, hx, rfl, rfl⟩
  have hgy := (h.mapped x.2.key y.1).mpr ⟨y, hy, rfl, hkey.symm⟩
  exact List.inj_on_of_nodup_map h.chained.nodup hx hy (Option.some.inj (hgx.symm.trans hgy))

theorem nodup_keys (h : Listed c cells) : (keysOf (entriesOf cells)).Nodup := by
  rw [keysOf, entriesOf, List.map_map]
  exact (List.Nodup.of_map _ h.chained.nodup).map_on (fun x hx y hy hkey => h.key_unique hx hy hkey)

theorem get?_eq_none_iff (h : Listed c cells) :
    c.cache.get? k = none ↔ k ∉ keysOf (entriesOf cells) := by
  rw [mem_keys_entriesOf]
  constructor
  · rintro hnone ⟨x, hx, hkey⟩
    rw [(h.mapped k x.1).mpr ⟨x, hx, rfl, hkey⟩] at hnone
    cases hnone
  · intro hnone
    cases hget : c.cache.get? k with
    | none => rfl
    | some p =>
        obtain ⟨x, hx, -, hkey⟩ := (h.mapped k p).mp hget
        exact absurd ⟨x, hx, hkey⟩ hnone

/-- A mapped key leads to its place in the list. -/
theorem find (h : Listed c cells) (hget : c.cache.get? k = some p) :
    ∃ A e B, cells = A ++ (p, e) :: B ∧ e.key = k := by
  obtain ⟨⟨q, e⟩, hx, hq, hkey⟩ := (h.mapped k p).mp hget
  obtain rfl : q = p := hq
  obtain ⟨A, B, hsplit⟩ := List.append_of_mem hx
  exact ⟨A, e, B, hsplit, hkey⟩

theorem entry (h : Listed c (A ++ (p, e) :: B)) : c.entryAt p = some e :=
  h.nodes (p, e) (List.mem_append_right _ (List.mem_cons_self ..))

/-- The other nodes have other keys. -/
theorem other_key (h : Listed c (A ++ (p, e) :: B)) :
    ∀ x ∈ A ++ B, x.2.key ≠ e.key := by
  have hnodup := h.nodup_keys
  rw [keysOf, entriesOf, List.map_map, List.map_append, List.map_cons] at hnodup
  obtain ⟨-, hB, hdisj⟩ := List.nodup_append.mp hnodup
  intro x hx hkey
  rcases List.mem_append.mp hx with hx | hx
  · exact hdisj _ (List.mem_map_of_mem hx) e.key (List.mem_cons_self ..) hkey
  · exact (List.nodup_cons.mp hB).1 (List.mem_map.mpr ⟨x, hx, hkey⟩)

theorem lookup_entries (h : Listed c (A ++ (p, e) :: B)) :
    lookup (entriesOf (A ++ (p, e) :: B)) e.key = some e := by
  have hbefore : ∀ x ∈ A.map Prod.snd, ¬ decide (x.key = e.key) = true := by
    intro x hx hkey
    obtain ⟨y, hy, rfl⟩ := List.mem_map.mp hx
    exact h.other_key y (List.mem_append_left _ hy) (of_decide_eq_true hkey)
  rw [lookup, entriesOf, List.map_append, List.find?_append, List.find?_eq_none.mpr hbefore]
  simp

theorem without_entries (h : Listed c (A ++ (p, e) :: B)) :
    without e.key (entriesOf (A ++ (p, e) :: B)) = entriesOf (A ++ B) := by
  have hkeep : ∀ x ∈ entriesOf (A ++ B), decide (¬ x.key = e.key) = true := by
    intro x hx
    obtain ⟨y, hy, rfl⟩ := List.mem_map.mp hx
    exact decide_eq_true (h.other_key y hy)
  have hall := List.filter_eq_self.mpr hkeep
  rw [entriesOf, List.map_append, List.filter_append] at hall
  rw [without, entriesOf, List.map_append, List.filter_append, List.map_cons,
    List.filter_cons_of_neg (by simp), hall, entriesOf, List.map_append]

/-- Only the node of a key is mapped by it. -/
theorem mapped_other (h : Listed c (A ++ (p, e) :: B)) (k : ByteString) (q : Nat) :
    (∃ x ∈ A ++ B, x.1 = q ∧ x.2.key = k) ↔ k ≠ e.key ∧ c.cache.get? k = some q := by
  rw [h.mapped]
  constructor
  · rintro ⟨x, hx, rfl, rfl⟩
    refine ⟨h.other_key x hx, x, ?_, rfl, rfl⟩
    exact (List.Sublist.append_left (List.sublist_cons_self _ B) A).subset hx
  · rintro ⟨hne, x, hx, rfl, rfl⟩
    refine ⟨x, ?_, rfl, rfl⟩
    rcases List.mem_append.mp hx with hx | hx
    · exact List.mem_append_left _ hx
    · rcases List.mem_cons.mp hx with rfl | hx
      · exact absurd rfl hne
      · exact List.mem_append_right _ hx

theorem not_mem_ptr (h : Listed c (A ++ (p, e) :: B)) : p ∉ (A ++ B).map Prod.fst := by
  have hnodup := h.chained.nodup
  rw [List.map_append, List.map_cons] at hnodup
  obtain ⟨-, hB, hdisj⟩ := List.nodup_append.mp hnodup
  rw [List.map_append, List.mem_append, not_or]
  exact ⟨fun hmem => hdisj p hmem p (List.mem_cons_self ..) rfl, (List.nodup_cons.mp hB).1⟩

/-! ## The operations on the list -/

/-- **REMOVING A NODE.** -/
theorem removeNode (h : Listed c (A ++ (p, e) :: B)) : Listed (c.removeNode p) (A ++ B) := by
  obtain ⟨node, hnode, hentry⟩ := Option.map_eq_some_iff.mp h.entry
  have hkey : node.key = e.key := congrArg Entry.key hentry
  have hnamed : ¬ node.key = [] := by
    rw [hkey]
    exact h.named (p, e) (List.mem_append_right _ (List.mem_cons_self ..))
  have hchain : Chained { c with cache := c.cache.erase node.key }
      (A.map Prod.fst ++ p :: B.map Prod.fst) := by
    have := h.chained
    rw [List.map_append] at this
    exact ⟨this.nodup, this.inHeap, this.seg, this.head, this.tail⟩
  have hrel := (relinked_unlinkPrev { c with cache := c.cache.erase node.key } p).trans
    (relinked_unlinkNext _ p)
  have hunlinked := hchain.unlink
  rw [← List.map_append] at hunlinked
  have hsize : c.size > 0 := by
    rw [h.size, List.length_append, List.length_cons]
    omega
  rw [ContextLRUCache.removeNode, hnode]
  dsimp only
  rw [if_neg hnamed]
  generalize (({ c with cache := c.cache.erase node.key } : ContextLRUCache V).unlinkPrev
    p).unlinkNext p = d at hrel hunlinked
  have hdsize : (d.wipe p).size > 0 := by
    show d.size > 0
    rw [hrel.size]
    exact hsize
  rw [if_pos hdsize]
  have hwiped := hunlinked.modifyNode h.not_mem_ptr
    (fun n => { n with prev := none, next := none, key := [] })
  refine ⟨⟨hwiped.nodup, hwiped.inHeap, hwiped.seg, hwiped.head, hwiped.tail⟩, ?_, ?_, ?_, ?_⟩
  · intro x hx
    have hpx : p ≠ x.1 := fun heq => h.not_mem_ptr (heq ▸ List.mem_map_of_mem hx)
    refine (entryAt_modifyNode_ne d hpx _).trans ((hrel.entries x.1).trans ?_)
    exact h.nodes x ((List.Sublist.append_left (List.sublist_cons_self _ B) A).subset hx)
  · intro k q
    show d.cache.get? k = some q ↔ _
    rw [hrel.cache, h.mapped_other]
    show (c.cache.erase node.key).get? k = some q ↔ _
    rw [InsertionMap.get?_erase, hkey]
    by_cases hk : k = e.key
    · rw [if_pos hk]
      constructor
      · rintro ⟨⟩
      · rintro ⟨hne, -⟩
        exact absurd hk hne
    · rw [if_neg hk]
      exact ⟨fun hget => ⟨hk, hget⟩, fun hget => hget.2⟩
  · intro x hx
    exact h.named x ((List.Sublist.append_left (List.sublist_cons_self _ B) A).subset hx)
  · show d.size - 1 = _
    rw [hrel.size]
    show c.size - 1 = _
    rw [h.size, List.length_append, List.length_append, List.length_cons]
    omega

/-- The tail is the entry used longest ago. -/
theorem removeTail (h : Listed c (A ++ [(p, e)])) : Listed c.removeTail A := by
  have htail : c.tail = some p := by
    rw [h.chained.tail, List.map_append]
    exact List.getLast?_concat
  rw [ContextLRUCache.removeTail, htail]
  have hremoved := h.removeNode
  rw [List.append_nil] at hremoved
  exact hremoved

/-- A node is used: its value and time of last use are written and it moves to the front. -/
theorem touch (h : Listed c (A ++ (p, e) :: B)) (v : V) (now : Int)
    {f : ContextLRUCacheNode V → ContextLRUCacheNode V}
    (hlinks : ∀ n, (f n).prev = n.prev ∧ (f n).next = n.next)
    (hf : ∀ n, c.heap[p]? = some n →
      (f n).key = n.key ∧ (f n).value = v ∧ (f n).lastAccess = now) :
    Listed ((c.modifyNode p f).moveToFront p) ((p, ⟨e.key, v, now⟩) :: (A ++ B)) := by
  have hchain := h.chained
  rw [List.map_append, List.map_cons] at hchain
  have hedit := hchain.edit p hlinks
  have hrel := relinked_moveToFront (c.modifyNode p f) p
  have hsub := (List.Sublist.append_left (List.sublist_cons_self (p, e) B) A).subset
  refine ⟨?_, ?_, ?_, ?_, ?_⟩
  · rw [List.map_cons, List.map_append]
    exact hedit.moveToFront
  · intro x hx
    rw [hrel.entries]
    rcases List.mem_cons.mp hx with rfl | hx
    · obtain ⟨node, hnode, hentry⟩ := Option.map_eq_some_iff.mp h.entry
      obtain ⟨hkey, hvalue, hlast⟩ := hf node hnode
      rw [entryAt, heap_modifyNode, if_pos rfl, hnode, Option.map_some, Option.map_some, hkey,
        hvalue, hlast, ← hentry]
    · have hpx : p ≠ x.1 := fun heq => h.not_mem_ptr (heq ▸ List.mem_map_of_mem hx)
      rw [entryAt_modifyNode_ne c hpx]
      exact h.nodes x (hsub hx)
  · intro k q
    rw [hrel.cache]
    show c.cache.get? k = some q ↔ _
    rw [h.mapped]
    constructor
    · rintro ⟨x, hx, hq, hk⟩
      rcases List.mem_append.mp hx with hx | hx
      · exact ⟨x, List.mem_cons_of_mem _ (List.mem_append_left _ hx), hq, hk⟩
      · rcases List.mem_cons.mp hx with rfl | hx
        · exact ⟨_, List.mem_cons_self .., hq, hk⟩
        · exact ⟨x, List.mem_cons_of_mem _ (List.mem_append_right _ hx), hq, hk⟩
    · rintro ⟨x, hx, hq, hk⟩
      rcases List.mem_cons.mp hx with rfl | hx
      · exact ⟨(p, e), List.mem_append_right _ (List.mem_cons_self ..), hq, hk⟩
      · exact ⟨x, hsub hx, hq, hk⟩
  · intro x hx
    rcases List.mem_cons.mp hx with rfl | hx
    · exact h.named (p, e) (List.mem_append_right _ (List.mem_cons_self ..))
    · exact h.named x (hsub hx)
  · rw [hrel.size]
    show c.size = _
    rw [h.size, List.length_append, List.length_cons, List.length_cons, List.length_append]
    omega

/-- A new key gets a new node. -/
theorem insertNew (h : Listed c cells) (hk : k ≠ []) (hnew : c.cache.get? k = none) (v : V)
    (now : Int) {d d' : ContextLRUCache V}
    (hd : d = { c with
      heap := c.heap ++ [newNode k v now]
      cache := c.cache.insert k c.heap.length })
    (hd' : d' = { d.addToFront c.heap.length with size := (d.addToFront c.heap.length).size + 1 }) :
    Listed d' ((c.heap.length, ⟨k, v, now⟩) :: cells) := by
  have hptr : c.heap.length ∉ cells.map Prod.fst :=
    fun hmem => Nat.lt_irrefl _ (h.chained.inHeap _ hmem)
  have hchain : Chained d (cells.map Prod.fst) := by
    rw [hd]
    exact h.chained.alloc _ _
  have hlength : c.heap.length < d.heap.length := by
    rw [hd, List.length_append, List.length_singleton]
    exact Nat.lt_succ_self _
  have hrel := relinked_addToFront d c.heap.length
  have hfront := hchain.addToFront hptr hlength
  rw [hd']
  refine ⟨⟨hfront.nodup, hfront.inHeap, hfront.seg, hfront.head, hfront.tail⟩, ?_, ?_, ?_, ?_⟩
  · intro x hx
    refine (hrel.entries x.1).trans ?_
    rw [hd]
    rcases List.mem_cons.mp hx with rfl | hx
    · show ((c.heap ++ [newNode k v now])[c.heap.length]?).map _ = _
      rw [List.getElem?_concat_length]
      rfl
    · have hin := h.chained.inHeap x.1 (List.mem_map_of_mem hx)
      show ((c.heap ++ [newNode k v now])[x.1]?).map _ = _
      rw [List.getElem?_append_left hin]
      exact h.nodes x hx
  · intro k' q
    show (d.addToFront c.heap.length).cache.get? k' = some q ↔ _
    rw [hrel.cache, hd]
    show (c.cache.insert k c.heap.length).get? k' = some q ↔ _
    rw [InsertionMap.get?_insert]
    by_cases hkk : k' = k
    · rw [if_pos hkk]
      constructor
      · rintro ⟨⟩
        exact ⟨_, List.mem_cons_self .., rfl, hkk.symm⟩
      · rintro ⟨x, hx, rfl, hkey⟩
        rcases List.mem_cons.mp hx with rfl | hx
        · rfl
        · refine absurd ?_ (h.get?_eq_none_iff.mp hnew)
          exact mem_keys_entriesOf.mpr ⟨x, hx, hkey.trans hkk⟩
    · rw [if_neg hkk, h.mapped]
      constructor
      · rintro ⟨x, hx, hq, hkey⟩
        exact ⟨x, List.mem_cons_of_mem _ hx, hq, hkey⟩
      · rintro ⟨x, hx, hq, hkey⟩
        rcases List.mem_cons.mp hx with rfl | hx
        · exact absurd hkey.symm hkk
        · exact ⟨x, hx, hq, hkey⟩
  · intro x hx
    rcases List.mem_cons.mp hx with rfl | hx
    · exact hk
    · exact h.named x hx
  · show (d.addToFront c.heap.length).size + 1 = _
    rw [hrel.size, hd, List.length_cons]
    show c.size + 1 = _
    rw [h.size]
    omega

theorem removeKey (h : Listed c cells) (k : ByteString) :
    Listed (c.removeKey k) (cells.filter (fun x => ¬ x.2.key = k)) := by
  rw [ContextLRUCache.removeKey]
  cases hget : c.cache.get? k with
  | none =>
      have hall : cells.filter (fun x => ¬ x.2.key = k) = cells := by
        refine List.filter_eq_self.mpr ?_
        intro x hx
        refine decide_eq_true (fun hkey => h.get?_eq_none_iff.mp hget ?_)
        exact mem_keys_entriesOf.mpr ⟨x, hx, hkey⟩
      rw [hall]
      exact h
  | some p =>
      obtain ⟨A, e, B, rfl, rfl⟩ := h.find hget
      have hkeep := List.filter_eq_self.mpr
        (fun x hx => decide_eq_true (h.other_key x hx))
      rw [List.filter_append] at hkeep
      rw [List.filter_append, List.filter_cons_of_neg (by simp), hkeep]
      exact h.removeNode

theorem removeKeys : ∀ (ks : List ByteString) {c : ContextLRUCache V}
    {cells : List (Nat × Entry ByteString V)}, Listed c cells →
    Listed (ks.foldl ContextLRUCache.removeKey c) (cells.filter (fun x => x.2.key ∉ ks)) := by
  intro ks
  induction ks with
  | nil =>
      intro c cells h
      have hall : cells.filter (fun x => x.2.key ∉ ([] : List ByteString)) = cells := by simp
      rw [hall]
      exact h
  | cons k ks ih =>
      intro c cells h
      have hstep := ih (h.removeKey k)
      rw [List.filter_filter] at hstep
      have hboth : (cells.filter fun x => decide (x.2.key ∉ ks) && decide (¬ x.2.key = k))
          = cells.filter (fun x => x.2.key ∉ k :: ks) := by
        refine List.filter_congr ?_
        intro x _
        rw [← Bool.decide_and]
        refine decide_eq_decide.mpr ?_
        rw [List.mem_cons, not_or, and_comm]
      rw [hboth] at hstep
      exact hstep

/-- The keys found out of date are those of the entries that are. -/
theorem mem_expiredKeys (h : Listed c cells) {now : Int} {x : Nat × Entry ByteString V}
    (hx : x ∈ cells) : x.2.key ∈ c.expiredKeys now ↔ Idle c.ttlSeconds x.2.last now := by
  obtain ⟨node, hnode, hentry⟩ := Option.map_eq_some_iff.mp (h.nodes x hx)
  have hlast : node.lastAccess = x.2.last := congrArg Entry.last hentry
  have hget : c.cache.get? x.2.key = some x.1 := (h.mapped _ _).mpr ⟨x, hx, rfl, rfl⟩
  rw [← hlast, ← isExpired_iff, expiredKeys, List.mem_map]
  constructor
  · rintro ⟨⟨k, q⟩, hmem, hk⟩
    obtain rfl : k = x.2.key := hk
    obtain ⟨hentries, hexpired⟩ := List.mem_filter.mp hmem
    have hq := InsertionMap.get?_of_mem_entries hentries
    rw [hget] at hq
    obtain rfl : x.1 = q := Option.some.inj hq
    dsimp only at hexpired
    rw [hnode] at hexpired
    exact hexpired
  · intro hexpired
    refine ⟨(x.2.key, x.1), List.mem_filter.mpr ⟨InsertionMap.mem_entries_of_get? hget, ?_⟩, rfl⟩
    dsimp only
    rw [hnode]
    exact hexpired

/-- **CLEANING UP.**  What is out of date goes, the rest keeps its order. -/
theorem cleanupExpiredEntries (h : Listed c cells) (now : Int) :
    Listed (c.cleanupExpiredEntries now)
      (cells.filter (fun x => ¬ Idle c.ttlSeconds x.2.last now)) := by
  rw [ContextLRUCache.cleanupExpiredEntries]
  by_cases httl : c.ttlSeconds ≤ 0
  · have hall : cells.filter (fun x => ¬ Idle c.ttlSeconds x.2.last now) = cells := by
      refine List.filter_eq_self.mpr ?_
      intro x _
      exact decide_eq_true (fun hidle => absurd hidle.1 (by omega))
    rw [if_pos httl, hall]
    exact h
  · have hkeys : cells.filter (fun x => ¬ Idle c.ttlSeconds x.2.last now)
        = cells.filter (fun x => x.2.key ∉ c.expiredKeys now) := by
      refine List.filter_congr ?_
      intro x hx
      exact decide_eq_decide.mpr (not_congr (h.mem_expiredKeys hx).symm)
    rw [if_neg httl, hkeys]
    exact h.removeKeys _

end Listed

/-! ## What the operations leave alone -/

/-- The settings and the time of the last cleanup are the same. -/
def SameSettings (c c' : ContextLRUCache V) : Prop :=
  c'.config = c.config ∧ c'.lastCleanup = c.lastCleanup

theorem SameSettings.refl (c : ContextLRUCache V) : SameSettings c c := ⟨rfl, rfl⟩

theorem SameSettings.trans {c c' c'' : ContextLRUCache V} (h : SameSettings c c')
    (h' : SameSettings c' c'') : SameSettings c c'' :=
  ⟨h'.1.trans h.1, h'.2.trans h.2⟩

theorem Relinked.sameSettings {c c' : ContextLRUCache V} (h : Relinked c c') :
    SameSettings c c' := ⟨h.config, h.cleaned⟩

theorem sameSettings_removeNode (c : ContextLRUCache V) (p : Nat) :
    SameSettings c (c.removeNode p) := by
  rw [removeNode]
  cases c.heap[p]? with
  | none => exact SameSettings.refl c
  | some node =>
      have hlinks := (relinked_unlinkPrev { c with cache := c.cache.erase node.key } p).trans
        (relinked_unlinkNext _ p)
      have hsame : SameSettings c (((({ c with cache := c.cache.erase node.key } :
          ContextLRUCache V).unlinkPrev p).unlinkNext p).wipe p) := hlinks.sameSettings
      dsimp only
      split
      · exact SameSettings.refl c
      · split
        · exact hsame
        · exact hsame

theorem sameSettings_removeKey (c : ContextLRUCache V) (k : ByteString) :
    SameSettings c (c.removeKey k) := by
  rw [removeKey]
  split
  · exact sameSettings_removeNode c _
  · exact SameSettings.refl c

theorem sameSettings_removeKeys : ∀ (ks : List ByteString) (c : ContextLRUCache V),
    SameSettings c (ks.foldl removeKey c) := by
  intro ks
  induction ks with
  | nil => exact SameSettings.refl
  | cons k ks ih => exact fun c => (sameSettings_removeKey c k).trans (ih _)

theorem sameSettings_removeTail (c : ContextLRUCache V) : SameSettings c c.removeTail := by
  rw [removeTail]
  split
  · exact SameSettings.refl c
  · exact sameSettings_removeNode c _

theorem sameSettings_cleanupExpiredEntries (c : ContextLRUCache V) (now : Int) :
    SameSettings c (c.cleanupExpiredEntries now) := by
  rw [cleanupExpiredEntries]
  split
  · exact SameSettings.refl c
  · exact sameSettings_removeKeys _ c

theorem sameSettings_wipeFrom : ∀ (fuel : Nat) (current : Option Nat) (c : ContextLRUCache V),
    SameSettings c (wipeFrom fuel current c) := by
  intro fuel
  induction fuel with
  | zero => exact fun _ c => SameSettings.refl c
  | succ fuel ih =>
      intro current c
      cases current with
      | none => exact SameSettings.refl c
      | some p => exact ih _ (c.wipe p)

end ContextLRUCache

end VHono
