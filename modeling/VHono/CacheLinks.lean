import VHono.RouteCaches
import VHono.DoublyLinked
import VHono.RecencyCache

/-! # The nodes of the LRU cache

    `Chained c ps`: from head to tail the list runs through the nodes `ps`,
    linked both ways.  `Listed c cells`: these nodes hold the entries of
    `cells`, and the map leads to each of them by its key and nowhere else.
    Every operation keeps this, and does to the entries what its counterpart on
    a plain list does. -/

namespace VHono

open ByteString DoublyLinked RecencyCache

variable {V : Type}

namespace ContextLRUCache

def newWithTtl (capacity ttlSeconds now : Int) : ContextLRUCache V :=
  { (new capacity now : ContextLRUCache V) with ttlSeconds := ttlSeconds }

def setCleanupInterval (c : ContextLRUCache V) (intervalSeconds : Int) : ContextLRUCache V :=
  { c with cleanupInterval := intervalSeconds }

def forceCleanupExpired (c : ContextLRUCache V) (now : Int) : ContextLRUCache V :=
  c.cleanupExpiredEntries now

/-- Follow the links from `current`, counting; a count beyond the size is a cycle. -/
def countFrom (c : ContextLRUCache V) : Nat → Int → Option Nat → Bool
  | _, count, none => count = c.size
  | 0, _, some _ => false
  | fuel + 1, count, some p =>
      if count + 1 > c.size then false else countFrom c fuel (count + 1) (c.nextOf p)

def isHealthy (c : ContextLRUCache V) : Bool :=
  if c.size = 0 then c.head = none ∧ c.tail = none ∧ c.cache.len = 0
  else if c.head = none ∨ c.tail = none then false
  else if (c.cache.len : Int) ≠ c.size then false
  -- the walk ends when the count has passed the size
  else c.countFrom (c.size.toNat + 1) 0 c.head

/-! ## Links and entries of the heap -/

def links (c : ContextLRUCache V) : Links Nat := ⟨c.prevOf, c.nextOf⟩

def entryAt (c : ContextLRUCache V) (p : Nat) : Option (Entry ByteString V) :=
  c.heap[p]?.map (fun n => ⟨n.key, n.value, n.lastAccess⟩)

/-- What never changes after the cache is set up. -/
def config (c : ContextLRUCache V) : Config := ⟨c.capacity, c.ttlSeconds, c.cleanupInterval⟩

/-- The two differ in links, head and tail at most. -/
structure Relinked (c c' : ContextLRUCache V) : Prop where
  entries : ∀ p, c'.entryAt p = c.entryAt p
  length  : c'.heap.length = c.heap.length
  cache   : c'.cache = c.cache
  size    : c'.size = c.size
  config  : c'.config = c.config
  cleaned : c'.lastCleanup = c.lastCleanup

theorem Relinked.refl (c : ContextLRUCache V) : Relinked c c :=
  ⟨fun _ => rfl, rfl, rfl, rfl, rfl, rfl⟩

theorem Relinked.trans {c c' c'' : ContextLRUCache V} (h : Relinked c c') (h' : Relinked c' c'') :
    Relinked c c'' where
  entries := fun p => (h'.entries p).trans (h.entries p)
  length := h'.length.trans h.length
  cache := h'.cache.trans h.cache
  size := h'.size.trans h.size
  config := h'.config.trans h.config
  cleaned := h'.cleaned.trans h.cleaned

variable {c : ContextLRUCache V} {p : Nat}

theorem heap_modifyNode (c : ContextLRUCache V) (p q : Nat)
    (f : ContextLRUCacheNode V → ContextLRUCacheNode V) :
    (c.modifyNode p f).heap[q]? = if p = q then c.heap[q]?.map f else c.heap[q]? := by
  show (c.heap.modify p f)[q]? = _
  rw [List.getElem?_modify]
  by_cases hpq : p = q
  · simp [hpq]
  · simp [hpq]

theorem entryAt_modifyNode_ne (c : ContextLRUCache V) {p q : Nat} (h : p ≠ q)
    (f : ContextLRUCacheNode V → ContextLRUCacheNode V) :
    (c.modifyNode p f).entryAt q = c.entryAt q := by
  rw [entryAt, heap_modifyNode, if_neg h, entryAt]

/-- An edit that leaves key, value and time of last use alone. -/
theorem relinked_modifyNode (c : ContextLRUCache V) (p : Nat)
    (f : ContextLRUCacheNode V → ContextLRUCacheNode V)
    (hf : ∀ n, (f n).key = n.key ∧ (f n).value = n.value ∧ (f n).lastAccess = n.lastAccess) :
    Relinked c (c.modifyNode p f) where
  entries := by
    intro r
    rw [entryAt, entryAt, heap_modifyNode]
    split
    · rw [Option.map_map]
      refine congrArg (fun g => c.heap[r]?.map g) (funext fun n => ?_)
      obtain ⟨hkey, hvalue, hlast⟩ := hf n
      simp only [Function.comp_apply, hkey, hvalue, hlast]
    · rfl
  length := List.length_modify ..
  cache := rfl
  size := rfl
  config := rfl
  cleaned := rfl

theorem relinked_setPrev (c : ContextLRUCache V) (p : Nat) (q : Option Nat) :
    Relinked c (c.setPrev p q) := relinked_modifyNode c p _ (fun _ => ⟨rfl, rfl, rfl⟩)

theorem relinked_setNext (c : ContextLRUCache V) (p : Nat) (q : Option Nat) :
    Relinked c (c.setNext p q) := relinked_modifyNode c p _ (fun _ => ⟨rfl, rfl, rfl⟩)

theorem relinked_setHead (c : ContextLRUCache V) (q : Option Nat) : Relinked c (c.setHead q) :=
  ⟨fun _ => rfl, rfl, rfl, rfl, rfl, rfl⟩

theorem relinked_setTail (c : ContextLRUCache V) (q : Option Nat) : Relinked c (c.setTail q) :=
  ⟨fun _ => rfl, rfl, rfl, rfl, rfl, rfl⟩

theorem relinked_bypassPrev (c : ContextLRUCache V) (p : Nat) : Relinked c (c.bypassPrev p) := by
  rw [bypassPrev]
  split
  · exact relinked_setNext c _ _
  · exact Relinked.refl c

theorem relinked_bypassNext (c : ContextLRUCache V) (p : Nat) : Relinked c (c.bypassNext p) := by
  rw [bypassNext]
  split
  · exact relinked_setPrev c _ _
  · exact Relinked.refl c

theorem relinked_retreatTail (c : ContextLRUCache V) (p : Nat) : Relinked c (c.retreatTail p) := by
  rw [retreatTail]
  split
  · exact relinked_setTail c _
  · exact Relinked.refl c

theorem relinked_backlinkHead (c : ContextLRUCache V) (p : Nat) :
    Relinked c (c.backlinkHead p) := by
  rw [backlinkHead]
  split
  · exact relinked_setPrev c _ _
  · exact Relinked.refl c

theorem relinked_tailIfNil (c : ContextLRUCache V) (p : Nat) : Relinked c (c.tailIfNil p) := by
  rw [tailIfNil]
  split
  · exact relinked_setTail c _
  · exact Relinked.refl c

theorem relinked_addToFront (c : ContextLRUCache V) (p : Nat) : Relinked c (c.addToFront p) :=
  ((((relinked_setNext c p c.head).trans (relinked_setPrev _ p none)).trans
    (relinked_backlinkHead _ p)).trans (relinked_setHead _ (some p))).trans
      (relinked_tailIfNil _ p)

theorem relinked_moveToFront (c : ContextLRUCache V) (p : Nat) :
    Relinked c (c.moveToFront p) := by
  rw [moveToFront]
  split
  · exact Relinked.refl c
  · exact (((relinked_bypassPrev c p).trans (relinked_bypassNext _ p)).trans
      (relinked_retreatTail _ p)).trans (relinked_addToFront _ p)

theorem relinked_unlinkPrev (c : ContextLRUCache V) (p : Nat) : Relinked c (c.unlinkPrev p) := by
  rw [unlinkPrev]
  split
  · exact relinked_setNext c _ _
  · exact relinked_setHead c _

theorem relinked_unlinkNext (c : ContextLRUCache V) (p : Nat) : Relinked c (c.unlinkNext p) := by
  rw [unlinkNext]
  split
  · exact relinked_setPrev c _ _
  · exact relinked_setTail c _

/-! ## The edits as edits of the links -/

@[simp] theorem links_prev (c : ContextLRUCache V) : c.links.prev = c.prevOf := rfl

@[simp] theorem links_next (c : ContextLRUCache V) : c.links.next = c.nextOf := rfl

theorem links_ext {c : ContextLRUCache V} {l : Links Nat} (hprev : ∀ r, c.prevOf r = l.prev r)
    (hnext : ∀ r, c.nextOf r = l.next r) : c.links = l := by
  obtain ⟨prev, next⟩ := l
  obtain rfl : c.prevOf = prev := funext hprev
  obtain rfl : c.nextOf = next := funext hnext
  rfl

theorem prevOf_modifyNode (c : ContextLRUCache V) (p r : Nat)
    (f : ContextLRUCacheNode V → ContextLRUCacheNode V) :
    (c.modifyNode p f).prevOf r
      = if p = r then c.heap[r]?.bind (fun n => (f n).prev) else c.prevOf r := by
  rw [prevOf, heap_modifyNode]
  split
  · rw [Option.bind_map]
    rfl
  · rfl

theorem nextOf_modifyNode (c : ContextLRUCache V) (p r : Nat)
    (f : ContextLRUCacheNode V → ContextLRUCacheNode V) :
    (c.modifyNode p f).nextOf r
      = if p = r then c.heap[r]?.bind (fun n => (f n).next) else c.nextOf r := by
  rw [nextOf, heap_modifyNode]
  split
  · rw [Option.bind_map]
    rfl
  · rfl

theorem links_setPrev (h : p < c.heap.length) (q : Option Nat) :
    (c.setPrev p q).links = c.links.setPrev p q := by
  refine links_ext ?_ ?_
  · intro r
    rw [setPrev, prevOf_modifyNode]
    by_cases hr : p = r
    · subst hr
      rw [if_pos rfl, Links.setPrev_prev, List.getElem?_eq_getElem h]
      rfl
    · rw [if_neg hr, Links.setPrev_prev_ne _ (Ne.symm hr)]
      rfl
  · intro r
    rw [setPrev, nextOf_modifyNode]
    exact ite_id _

theorem links_setNext (h : p < c.heap.length) (q : Option Nat) :
    (c.setNext p q).links = c.links.setNext p q := by
  refine links_ext ?_ ?_
  · intro r
    rw [setNext, prevOf_modifyNode]
    exact ite_id _
  · intro r
    rw [setNext, nextOf_modifyNode]
    by_cases hr : p = r
    · subst hr
      rw [if_pos rfl, Links.setNext_next, List.getElem?_eq_getElem h]
      rfl
    · rw [if_neg hr, Links.setNext_next_ne _ (Ne.symm hr)]
      rfl

theorem links_bypassPrev (h : ∀ q, c.prevOf p = some q → q < c.heap.length) :
    (c.bypassPrev p).links = c.links.bypassPrev p := by
  rw [bypassPrev, Links.bypassPrev, links_prev]
  cases hprev : c.prevOf p with
  | none => rfl
  | some q => exact links_setNext (h q hprev) _

theorem links_bypassNext (h : ∀ q, c.nextOf p = some q → q < c.heap.length) :
    (c.bypassNext p).links = c.links.bypassNext p := by
  rw [bypassNext, Links.bypassNext, links_next]
  cases hnext : c.nextOf p with
  | none => rfl
  | some q => exact links_setPrev (h q hnext) _

theorem links_unlinkPrev (h : ∀ q, c.prevOf p = some q → q < c.heap.length) :
    (c.unlinkPrev p).links = c.links.bypassPrev p := by
  rw [unlinkPrev, Links.bypassPrev, links_prev]
  cases hprev : c.prevOf p with
  | none => rfl
  | some q => exact links_setNext (h q hprev) _

theorem links_unlinkNext (h : ∀ q, c.nextOf p = some q → q < c.heap.length) :
    (c.unlinkNext p).links = c.links.bypassNext p := by
  rw [unlinkNext, Links.bypassNext, links_next]
  cases hnext : c.nextOf p with
  | none => rfl
  | some q => exact links_setPrev (h q hnext) _

theorem links_backlinkHead (h : ∀ q, c.head = some q → q < c.heap.length) :
    (c.backlinkHead p).links = c.links.backlink c.head p := by
  rw [backlinkHead]
  cases hhead : c.head with
  | none => rfl
  | some q => exact links_setPrev (h q hhead) _

theorem links_tailIfNil (c : ContextLRUCache V) (p : Nat) : (c.tailIfNil p).links = c.links := by
  rw [tailIfNil]
  split
  · rfl
  · rfl

/-! ## The list of the nodes -/

/-- From head to tail the list runs through these nodes. -/
structure Chained (c : ContextLRUCache V) (ps : List Nat) : Prop where
  nodup  : ps.Nodup
  inHeap : ∀ p ∈ ps, p < c.heap.length
  seg    : Seg c.links none ps none
  head   : c.head = ps.head?
  tail   : c.tail = ps.getLast?

variable {ps xs ys : List Nat}

theorem Chained.at (h : Chained c (xs ++ p :: ys)) :
    c.prevOf p = xs.getLast? ∧ c.nextOf p = ys.head? := seg_at h.seg

theorem Chained.prev_inHeap (h : Chained c (xs ++ p :: ys)) :
    ∀ q, xs.getLast? = some q → q < c.heap.length :=
  fun q hq => h.inHeap q (List.mem_append_left _ (List.mem_of_getLast? hq))

theorem Chained.next_inHeap (h : Chained c (xs ++ p :: ys)) :
    ∀ q, ys.head? = some q → q < c.heap.length :=
  fun q hq => h.inHeap q
    (List.mem_append_right _ (List.mem_cons_of_mem _ (List.mem_of_mem_head? hq)))

theorem Chained.not_mem (h : Chained c (xs ++ p :: ys)) : p ∉ xs ∧ p ∉ ys := by
  obtain ⟨-, hys, hdisj⟩ := List.nodup_append.mp h.nodup
  exact ⟨fun hmem => hdisj p hmem p (List.mem_cons_self ..) rfl, (List.nodup_cons.mp hys).1⟩

/-- With the node before skipping it, a node still has its own links. -/
theorem Chained.bypassed (h : Chained c (xs ++ p :: ys)) {d : ContextLRUCache V}
    (hd : d.links = c.links.bypassPrev p) : d.prevOf p = xs.getLast? ∧ d.nextOf p = ys.head? := by
  obtain ⟨hprev, hnext⟩ := h.at
  have hself : c.links.prev p ≠ some p := by
    rw [links_prev, hprev]
    intro hlast
    exact h.not_mem.1 (List.mem_of_getLast? hlast)
  obtain ⟨hp, hn⟩ := Links.bypassPrev_self hself
  rw [← hd] at hp hn
  exact ⟨hp.trans hprev, hn.trans hnext⟩

theorem nodup_skip (h : (xs ++ p :: ys).Nodup) : (xs ++ ys).Nodup :=
  h.sublist (List.Sublist.append_left (List.sublist_cons_self p ys) xs)

theorem mem_skip {q : Nat} (h : q ∈ xs ++ ys) : q ∈ xs ++ p :: ys :=
  (List.Sublist.append_left (List.sublist_cons_self p ys) xs).subset h

/-- `remove_node` leaves the list of the other nodes. -/
theorem Chained.unlink (h : Chained c (xs ++ p :: ys)) :
    Chained ((c.unlinkPrev p).unlinkNext p) (xs ++ ys) := by
  obtain ⟨hprev, hnext⟩ := h.at
  have hlinks : (c.unlinkPrev p).links = c.links.bypassPrev p :=
    links_unlinkPrev (by rw [hprev]; exact h.prev_inHeap)
  obtain ⟨hprev', hnext'⟩ := h.bypassed hlinks
  have hlength : (c.unlinkPrev p).heap.length = c.heap.length := (relinked_unlinkPrev c p).length
  have hlinks' : ((c.unlinkPrev p).unlinkNext p).links = (c.links.bypassPrev p).bypassNext p := by
    rw [links_unlinkNext (by rw [hnext', hlength]; exact h.next_inHeap), hlinks]
  refine ⟨nodup_skip h.nodup, ?_, ?_, ?_, ?_⟩
  · intro q hq
    rw [(relinked_unlinkNext _ p).length, hlength]
    exact h.inHeap q (mem_skip hq)
  · rw [hlinks']
    exact h.seg.bypass h.nodup
  · have hhead : ((c.unlinkPrev p).unlinkNext p).head = (c.unlinkPrev p).head := by
      rw [unlinkNext]
      split
      · rfl
      · rfl
    rw [hhead, unlinkPrev, hprev, hnext]
    cases xs with
    | nil => rfl
    | cons x xs =>
        rw [List.getLast?_cons]
        exact h.head
  · rw [unlinkNext, hprev', hnext']
    have htail : (c.unlinkPrev p).tail = c.tail := by
      rw [unlinkPrev]
      split
      · rfl
      · rfl
    cases ys with
    | nil =>
        rw [List.append_nil]
        rfl
    | cons y ys =>
        show (c.unlinkPrev p).tail = _
        rw [htail, h.tail]
        simp

/-- The edits of `move_to_front`, for a node that is not the head, leave the list of the other
    nodes. -/
theorem Chained.skip (h : Chained c (xs ++ p :: ys)) (hne : xs ≠ []) :
    Chained (((c.bypassPrev p).bypassNext p).retreatTail p) (xs ++ ys) := by
  obtain ⟨hprev, hnext⟩ := h.at
  have hlinks : (c.bypassPrev p).links = c.links.bypassPrev p :=
    links_bypassPrev (by rw [hprev]; exact h.prev_inHeap)
  obtain ⟨hprev', hnext'⟩ := h.bypassed hlinks
  have hlength : (c.bypassPrev p).heap.length = c.heap.length := (relinked_bypassPrev c p).length
  have hlinks' : ((c.bypassPrev p).bypassNext p).links = (c.links.bypassPrev p).bypassNext p := by
    rw [links_bypassNext (by rw [hnext', hlength]; exact h.next_inHeap), hlinks]
  have hends : ((c.bypassPrev p).bypassNext p).head = c.head ∧
      ((c.bypassPrev p).bypassNext p).tail = c.tail := by
    rw [bypassNext, bypassPrev]
    constructor
    · repeat' split
      all_goals rfl
    · repeat' split
      all_goals rfl
  refine ⟨nodup_skip h.nodup, ?_, ?_, ?_, ?_⟩
  · intro q hq
    rw [(relinked_retreatTail _ p).length, (relinked_bypassNext _ p).length, hlength]
    exact h.inHeap q (mem_skip hq)
  · have hretreat : (((c.bypassPrev p).bypassNext p).retreatTail p).links
        = ((c.bypassPrev p).bypassNext p).links := by
      rw [retreatTail]
      split
      · rfl
      · rfl
    rw [hretreat, hlinks']
    exact h.seg.bypass h.nodup
  · have hhead : (((c.bypassPrev p).bypassNext p).retreatTail p).head = c.head := by
      rw [retreatTail, ← hends.1]
      split
      · rfl
      · rfl
    obtain ⟨x, xs, rfl⟩ := List.exists_cons_of_ne_nil hne
    rw [hhead, h.head]
    rfl
  · rw [retreatTail, hends.2, h.tail]
    cases ys with
    | nil =>
        have hsame : (c.bypassPrev p).bypassNext p = c.bypassPrev p := by
          rw [bypassNext, hnext']
          rfl
        rw [List.getLast?_concat, if_pos rfl, hsame, hprev', List.append_nil]
        rfl
    | cons y ys =>
        have hlast : (xs ++ p :: y :: ys).getLast? = (xs ++ y :: ys).getLast? := by simp
        rw [hlast, if_neg ?_, hends.2, h.tail, hlast]
        intro heq
        rw [List.getLast?_append_cons] at heq
        exact h.not_mem.2 (List.mem_of_getLast? heq)

/-- `add_to_front` puts a node that is not listed before the others. -/
theorem Chained.addToFront (h : Chained c ps) (hp : p ∉ ps) (hheap : p < c.heap.length) :
    Chained (c.addToFront p) (p :: ps) := by
  have hnodup : (p :: ps).Nodup := List.nodup_cons.mpr ⟨hp, h.nodup⟩
  have hlength : ((c.setNext p c.head).setPrev p none).heap.length = c.heap.length :=
    ((relinked_setNext c p c.head).trans (relinked_setPrev _ p none)).length
  refine ⟨hnodup, ?_, ?_, ?_, ?_⟩
  · intro q hq
    rw [(relinked_addToFront c p).length]
    rcases List.mem_cons.mp hq with rfl | hq
    · exact hheap
    · exact h.inHeap q hq
  · have hlinks : (c.addToFront p).links = c.links.pushFront c.head p := by
      rw [ContextLRUCache.addToFront, links_tailIfNil]
      show (((c.setNext p c.head).setPrev p none).backlinkHead p).links = _
      rw [links_backlinkHead, links_setPrev (by rw [(relinked_setNext c p _).length]; exact hheap),
        links_setNext hheap]
      · rfl
      · intro q hq
        rw [hlength]
        exact h.inHeap q (List.mem_of_mem_head? (h.head ▸ hq))
    rw [hlinks, h.head]
    exact h.seg.pushFront hnodup
  · rw [ContextLRUCache.addToFront, tailIfNil]
    split
    · rfl
    · rfl
  · have htail : (((c.setNext p c.head).setPrev p none).backlinkHead p).tail = c.tail := by
      rw [backlinkHead]
      split
      · rfl
      · rfl
    rw [ContextLRUCache.addToFront, tailIfNil]
    show (if (((c.setNext p c.head).setPrev p none).backlinkHead p).tail = none
      then _ else _ : ContextLRUCache V).tail = _
    rw [htail, h.tail]
    cases ps with
    | nil => rfl
    | cons q ps =>
        rw [if_neg (by simp)]
        show (((c.setNext p c.head).setPrev p none).backlinkHead p).tail = _
        rw [htail, h.tail, List.getLast?_cons_cons]

theorem Chained.moveToFront (h : Chained c (xs ++ p :: ys)) :
    Chained (c.moveToFront p) (p :: (xs ++ ys)) := by
  rw [ContextLRUCache.moveToFront]
  cases xs with
  | nil =>
      have hhead : c.head = some p := h.head
      rw [if_pos hhead]
      exact h
  | cons x xs =>
      have hne : ¬ c.head = some p := by
        rw [h.head]
        intro heq
        exact h.not_mem.1 (Option.some.inj heq ▸ List.mem_cons_self ..)
      rw [if_neg hne]
      refine (h.skip (List.cons_ne_nil _ _)).addToFront ?_ ?_
      · intro hmem
        rcases List.mem_append.mp hmem with hmem | hmem
        · exact h.not_mem.1 hmem
        · exact h.not_mem.2 hmem
      · rw [(relinked_retreatTail _ p).length, (relinked_bypassNext _ p).length,
          (relinked_bypassPrev c p).length]
        exact h.inHeap p (List.mem_append_right _ (List.mem_cons_self ..))

/-- A node that is not listed may be changed in any way. -/
theorem Chained.modifyNode (h : Chained c ps) (hp : p ∉ ps)
    (f : ContextLRUCacheNode V → ContextLRUCacheNode V) : Chained (c.modifyNode p f) ps where
  nodup := h.nodup
  inHeap := by
    intro q hq
    show q < (c.heap.modify p f).length
    rw [List.length_modify]
    exact h.inHeap q hq
  seg := by
    refine h.seg.congr ?_
    intro q hq
    have hne : p ≠ q := fun heq => hp (heq ▸ hq)
    refine ⟨?_, ?_⟩
    · exact (prevOf_modifyNode c p q f).trans (if_neg hne)
    · exact (nextOf_modifyNode c p q f).trans (if_neg hne)
  head := h.head
  tail := h.tail

/-- An edit that leaves the links alone. -/
theorem Chained.edit (h : Chained c ps) (p : Nat)
    {f : ContextLRUCacheNode V → ContextLRUCacheNode V}
    (hf : ∀ n, (f n).prev = n.prev ∧ (f n).next = n.next) : Chained (c.modifyNode p f) ps where
  nodup := h.nodup
  inHeap := by
    intro q hq
    show q < (c.heap.modify p f).length
    rw [List.length_modify]
    exact h.inHeap q hq
  seg := by
    refine h.seg.congr ?_
    intro q hq
    refine ⟨?_, ?_⟩
    · refine (prevOf_modifyNode c p q f).trans ?_
      split
      · exact congrArg (fun g => c.heap[q]?.bind g) (funext fun n => (hf n).1)
      · rfl
    · refine (nextOf_modifyNode c p q f).trans ?_
      split
      · exact congrArg (fun g => c.heap[q]?.bind g) (funext fun n => (hf n).2)
      · rfl
  head := h.head
  tail := h.tail

/-- Nodes allocated later are not in the list. -/
theorem Chained.alloc (h : Chained c ps) (n : ContextLRUCacheNode V)
    (m : InsertionMap ByteString Nat) :
    Chained { c with heap := c.heap ++ [n], cache := m } ps where
  nodup := h.nodup
  inHeap := by
    intro q hq
    show q < (c.heap ++ [n]).length
    rw [List.length_append]
    exact Nat.lt_add_right _ (h.inHeap q hq)
  seg := by
    refine h.seg.congr ?_
    intro q hq
    have hold : (c.heap ++ [n])[q]? = c.heap[q]? := List.getElem?_append_left (h.inHeap q hq)
    refine ⟨?_, ?_⟩
    · exact congrArg (fun o => o.bind (·.prev)) hold
    · exact congrArg (fun o => o.bind (·.next)) hold
  head := h.head
  tail := h.tail

theorem Chained.nil (hhead : c.head = none) (htail : c.tail = none) : Chained c [] where
  nodup := List.nodup_nil
  inHeap := fun _ hp => absurd hp List.not_mem_nil
  seg := trivial
  head := hhead
  tail := htail

/-- The walk of `is_healthy` counts the nodes of the list. -/
theorem Chained.countFrom_eq : ∀ {ps : List Nat} {fuel : Nat} {count : Int} {before : Option Nat},
    Seg c.links before ps none → ps.length ≤ fuel → count + ps.length ≤ c.size →
    c.countFrom fuel count ps.head? = decide (count + ps.length = c.size) := by
  intro ps
  induction ps with
  | nil =>
      intro fuel count before _ _ _
      have hzero : count + ((([] : List Nat).length : Nat) : Int) = count := by simp
      rw [hzero]
      cases fuel with
      | zero => rfl
      | succ fuel => rfl
  | cons p ps ih =>
      rintro (_ | fuel) count before ⟨-, hnext, hrest⟩ hfuel hcount
      · exact absurd hfuel (by simp)
      · rw [List.length_cons] at hfuel hcount ⊢
        have hnext' : c.nextOf p = ps.head? := hnext.trans (Option.or_none)
        show (if count + 1 > c.size then false else c.countFrom fuel (count + 1) (c.nextOf p)) = _
        rw [if_neg (by omega), hnext', ih hrest (by omega) (by omega)]
        refine decide_eq_decide.mpr ?_
        omega

end ContextLRUCache

end VHono
