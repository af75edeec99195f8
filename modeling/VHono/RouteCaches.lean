import VHono.InsertionMap
import VHono.ByteString

/-! # The two route caches

    `ContextLRUCache` is a doubly linked list of heap nodes with a map from
    keys to node pointers; `FastRouteCache` is a plain map that is emptied when
    full.  A pointer is the position of a node in the list of all nodes ever
    allocated, so aliasing and stale links are those of the source.

    The results say which values a cache can answer with: whatever a property
    `P key value` holds of every `put`, it holds of every `get`. -/

namespace VHono

open ByteString

variable {V : Type}

/-- A node of the linked list; `prev` and `next` are pointers, `none` is nil. -/
structure ContextLRUCacheNode (V : Type) where
  key        : ByteString
  value      : V
  prev       : Option Nat
  next       : Option Nat
  createdAt  : Int
  lastAccess : Int

structure ContextLRUCache (V : Type) where
  /-- every node allocated so far, addressed by position -/
  heap            : List (ContextLRUCacheNode V)
  capacity        : Int
  size            : Int
  cache           : InsertionMap ByteString Nat
  head            : Option Nat
  tail            : Option Nat
  ttlSeconds      : Int
  lastCleanup     : Int
  cleanupInterval : Int

namespace ContextLRUCache

def new (capacity now : Int) : ContextLRUCache V where
  heap := []
  capacity := capacity
  size := 0
  cache := .empty
  head := none
  tail := none
  ttlSeconds := 3600
  lastCleanup := now
  cleanupInterval := 300

/-! ## Reading and writing through a pointer -/

def prevOf (c : ContextLRUCache V) (p : Nat) : Option Nat := c.heap[p]?.bind (·.prev)

def nextOf (c : ContextLRUCache V) (p : Nat) : Option Nat := c.heap[p]?.bind (·.next)

def modifyNode (c : ContextLRUCache V) (p : Nat)
    (f : ContextLRUCacheNode V → ContextLRUCacheNode V) : ContextLRUCache V :=
  { c with heap := c.heap.modify p f }

def setPrev (c : ContextLRUCache V) (p : Nat) (q : Option Nat) : ContextLRUCache V :=
  c.modifyNode p (fun n => { n with prev := q })

def setNext (c : ContextLRUCache V) (p : Nat) (q : Option Nat) : ContextLRUCache V :=
  c.modifyNode p (fun n => { n with next := q })

/-- The key and value a pointer leads to. -/
def contents (c : ContextLRUCache V) (p : Nat) : Option (ByteString × V) :=
  c.heap[p]?.map (fun n => (n.key, n.value))

def setHead (c : ContextLRUCache V) (p : Option Nat) : ContextLRUCache V :=
  { c with head := p }

def setTail (c : ContextLRUCache V) (p : Option Nat) : ContextLRUCache V :=
  { c with tail := p }

/-! ## The list operations

    Each `if node.prev != nil { .. }` of the source is one named edit. -/

/-- `if node.prev != nil { prev.next = node.next }` -/
def bypassPrev (c : ContextLRUCache V) (p : Nat) : ContextLRUCache V :=
  match c.prevOf p with
  | some q => c.setNext q (c.nextOf p)
  | none => c

/-- `if node.next != nil { next.prev = node.prev }` -/
def bypassNext (c : ContextLRUCache V) (p : Nat) : ContextLRUCache V :=
  match c.nextOf p with
  | some q => c.setPrev q (c.prevOf p)
  | none => c

/-- `if cache.head != nil { head.prev = node }` -/
def backlinkHead (c : ContextLRUCache V) (p : Nat) : ContextLRUCache V :=
  match c.head with
  | some h => c.setPrev h (some p)
  | none => c

/-- `if cache.tail == nil { cache.tail = node }` -/
def tailIfNil (c : ContextLRUCache V) (p : Nat) : ContextLRUCache V :=
  if c.tail = none then c.setTail (some p) else c

/-- `if node == cache.tail { cache.tail = node.prev }` -/
def retreatTail (c : ContextLRUCache V) (p : Nat) : ContextLRUCache V :=
  if c.tail = some p then c.setTail (c.prevOf p) else c

def addToFront (c : ContextLRUCache V) (p : Nat) : ContextLRUCache V :=
  ((((c.setNext p c.head).setPrev p none).backlinkHead p).setHead (some p)).tailIfNil p

def moveToFront (c : ContextLRUCache V) (p : Nat) : ContextLRUCache V :=
  if c.head = some p then c
  else (((c.bypassPrev p).bypassNext p).retreatTail p).addToFront p

/-- The predecessor, or the head, skips the node. -/
def unlinkPrev (c : ContextLRUCache V) (p : Nat) : ContextLRUCache V :=
  match c.prevOf p with
  | some q => c.setNext q (c.nextOf p)
  | none => c.setHead (c.nextOf p)

/-- The successor, or the tail, skips the node. -/
def unlinkNext (c : ContextLRUCache V) (p : Nat) : ContextLRUCache V :=
  match c.nextOf p with
  | some q => c.setPrev q (c.prevOf p)
  | none => c.setTail (c.prevOf p)

/-- `node.prev = nil; node.next = nil; node.key = ''` -/
def wipe (c : ContextLRUCache V) (p : Nat) : ContextLRUCache V :=
  c.modifyNode p (fun n => { n with prev := none, next := none, key := [] })

def removeNode (c : ContextLRUCache V) (p : Nat) : ContextLRUCache V :=
  match c.heap[p]? with
  | none => c
  | some node =>
    -- an emptied key marks a node that was removed before
    if node.key = [] then c
    else
      let c := { c with cache := c.cache.erase node.key }
      let c := ((c.unlinkPrev p).unlinkNext p).wipe p
      if c.size > 0 then { c with size := c.size - 1 } else c

def removeTail (c : ContextLRUCache V) : ContextLRUCache V :=
  match c.tail with
  | none => c
  | some t => c.removeNode t

/-! ## Expiry -/

def isExpired (c : ContextLRUCache V) (node : ContextLRUCacheNode V) (now : Int) : Bool :=
  if c.ttlSeconds ≤ 0 then false
  else decide (now - node.lastAccess > c.ttlSeconds)

/-- The keys whose node has expired, in map order. -/
def expiredKeys (c : ContextLRUCache V) (now : Int) : List ByteString :=
  (c.cache.entries.filter (fun e => match c.heap[e.2]? with
    | some node => c.isExpired node now
    | none => false)).map Prod.fst

def removeKey (c : ContextLRUCache V) (key : ByteString) : ContextLRUCache V :=
  match c.cache.get? key with
  | some p => c.removeNode p
  | none => c

def cleanupExpiredEntries (c : ContextLRUCache V) (now : Int) : ContextLRUCache V :=
  if c.ttlSeconds ≤ 0 then c
  else (c.expiredKeys now).foldl removeKey c

def cleanupExpiredIfNeeded (c : ContextLRUCache V) (now : Int) : ContextLRUCache V :=
  if now - c.lastCleanup > c.cleanupInterval then
    { c.cleanupExpiredEntries now with lastCleanup := now }
  else c

/-! ## get, put, clear -/

def get (c : ContextLRUCache V) (key : ByteString) (now : Int) :
    Option V × ContextLRUCache V :=
  let c := c.cleanupExpiredIfNeeded now
  match c.cache.get? key with
  | none => (none, c)
  | some p =>
    match c.heap[p]? with
    | none => (none, c)
    | some node =>
      if c.isExpired node now then (none, c.removeNode p)
      else
        let c := c.modifyNode p (fun n => { n with lastAccess := now })
        (some node.value, c.moveToFront p)

/-- The node `put` allocates for a new key. -/
def newNode (key : ByteString) (value : V) (now : Int) : ContextLRUCacheNode V where
  key := key
  value := value
  prev := none
  next := none
  createdAt := now
  lastAccess := now

def put (c : ContextLRUCache V) (key : ByteString) (value : V) (now : Int) :
    ContextLRUCache V :=
  let c := c.cleanupExpiredIfNeeded now
  match c.cache.get? key with
  | some p =>
    let c := c.modifyNode p (fun n => { n with value := value, lastAccess := now })
    c.moveToFront p
  | none =>
    let c := if c.size ≥ c.capacity then c.removeTail else c
    let p := c.heap.length
    let c : ContextLRUCache V := { c with
      heap := c.heap ++ [newNode key value now]
      cache := c.cache.insert key p }
    let c := c.addToFront p
    { c with size := c.size + 1 }

/-- Walk the list from `current`, wiping every node passed.  A wiped node ends
    the walk, so no walk is longer than the heap has nodes, plus one. -/
def wipeFrom : Nat → Option Nat → ContextLRUCache V → ContextLRUCache V
  | 0, _, c => c
  | _, none, c => c
  | fuel + 1, some p, c =>
    let next := c.nextOf p
    wipeFrom fuel next (c.wipe p)

def clear (c : ContextLRUCache V) (now : Int) : ContextLRUCache V :=
  let c := wipeFrom (c.heap.length + 1) c.head c
  { c with cache := .empty, head := none, tail := none, size := 0, lastCleanup := now }

/-! ## What the operations do to keys and values -/

theorem contents_modifyNode (c : ContextLRUCache V) (p q : Nat)
    (f : ContextLRUCacheNode V → ContextLRUCacheNode V) :
    (c.modifyNode p f).contents q
      = if p = q then c.heap[q]?.map (fun n => ((f n).key, (f n).value)) else c.contents q := by
  show ((c.heap.modify p f)[q]?).map _ = _
  rw [List.getElem?_modify]
  by_cases hpq : p = q
  · simp only [if_pos hpq, Option.map_eq_map, Option.map_map]
    rfl
  · simp only [if_neg hpq, Option.map_eq_map, Option.map_id']
    rfl

@[simp] theorem contents_setPrev (c : ContextLRUCache V) (p q : Nat) (x : Option Nat) :
    (c.setPrev p x).contents q = c.contents q := by
  rw [setPrev, contents_modifyNode]
  split <;> rfl

@[simp] theorem contents_setNext (c : ContextLRUCache V) (p q : Nat) (x : Option Nat) :
    (c.setNext p x).contents q = c.contents q := by
  rw [setNext, contents_modifyNode]
  split <;> rfl

/-- Two caches with the same map and the same keys and values behind every
    pointer; links, sizes and times may differ. -/
def SameContents (c c' : ContextLRUCache V) : Prop :=
  c'.cache = c.cache ∧ ∀ p, c'.contents p = c.contents p

theorem SameContents.refl (c : ContextLRUCache V) : SameContents c c := ⟨rfl, fun _ => rfl⟩

theorem SameContents.trans {c c' c'' : ContextLRUCache V}
    (h : SameContents c c') (h' : SameContents c' c'') : SameContents c c'' :=
  ⟨h'.1.trans h.1, fun p => (h'.2 p).trans (h.2 p)⟩

theorem sameContents_setPrev (c : ContextLRUCache V) (p : Nat) (x : Option Nat) :
    SameContents c (c.setPrev p x) := ⟨rfl, fun q => contents_setPrev c p q x⟩

theorem sameContents_setNext (c : ContextLRUCache V) (p : Nat) (x : Option Nat) :
    SameContents c (c.setNext p x) := ⟨rfl, fun q => contents_setNext c p q x⟩

theorem sameContents_setHead (c : ContextLRUCache V) (x : Option Nat) :
    SameContents c (c.setHead x) := ⟨rfl, fun _ => rfl⟩

theorem sameContents_setTail (c : ContextLRUCache V) (x : Option Nat) :
    SameContents c (c.setTail x) := ⟨rfl, fun _ => rfl⟩

theorem sameContents_bypassPrev (c : ContextLRUCache V) (p : Nat) :
    SameContents c (c.bypassPrev p) := by
  rw [bypassPrev]
  split
  · exact sameContents_setNext c _ _
  · exact SameContents.refl c

theorem sameContents_bypassNext (c : ContextLRUCache V) (p : Nat) :
    SameContents c (c.bypassNext p) := by
  rw [bypassNext]
  split
  · exact sameContents_setPrev c _ _
  · exact SameContents.refl c

theorem sameContents_backlinkHead (c : ContextLRUCache V) (p : Nat) :
    SameContents c (c.backlinkHead p) := by
  rw [backlinkHead]
  split
  · exact sameContents_setPrev c _ _
  · exact SameContents.refl c

theorem sameContents_tailIfNil (c : ContextLRUCache V) (p : Nat) :
    SameContents c (c.tailIfNil p) := by
  rw [tailIfNil]
  split
  · exact sameContents_setTail c _
  · exact SameContents.refl c

theorem sameContents_retreatTail (c : ContextLRUCache V) (p : Nat) :
    SameContents c (c.retreatTail p) := by
  rw [retreatTail]
  split
  · exact sameContents_setTail c _
  · exact SameContents.refl c

theorem sameContents_unlinkPrev (c : ContextLRUCache V) (p : Nat) :
    SameContents c (c.unlinkPrev p) := by
  rw [unlinkPrev]
  split
  · exact sameContents_setNext c _ _
  · exact sameContents_setHead c _

theorem sameContents_unlinkNext (c : ContextLRUCache V) (p : Nat) :
    SameContents c (c.unlinkNext p) := by
  rw [unlinkNext]
  split
  · exact sameContents_setPrev c _ _
  · exact sameContents_setTail c _

theorem sameContents_addToFront (c : ContextLRUCache V) (p : Nat) :
    SameContents c (c.addToFront p) :=
  (sameContents_setNext c p c.head).trans
    ((sameContents_setPrev _ p none).trans
      ((sameContents_backlinkHead _ p).trans
        ((sameContents_setHead _ (some p)).trans (sameContents_tailIfNil _ p))))

theorem sameContents_moveToFront (c : ContextLRUCache V) (p : Nat) :
    SameContents c (c.moveToFront p) := by
  rw [moveToFront]
  split
  · exact SameContents.refl c
  · exact (sameContents_bypassPrev c p).trans
      ((sameContents_bypassNext _ p).trans
        ((sameContents_retreatTail _ p).trans (sameContents_addToFront _ p)))

/-! ## Provenance

    `Holds P c`: every key of the map leads to a node with that key whose value
    satisfies `P` at the key.  All five operations keep it, so a `get` answers
    only with values that were `put` under the key asked for. -/

/-- Every mapped key leads to a node with that key and a value satisfying `P`. -/
def Holds (P : ByteString → V → Prop) (c : ContextLRUCache V) : Prop :=
  ∀ k p, c.cache.get? k = some p → ∃ v, c.contents p = some (k, v) ∧ P k v

theorem Holds.congr {P : ByteString → V → Prop} {c c' : ContextLRUCache V}
    (h : Holds P c) (hs : SameContents c c') : Holds P c' := by
  intro k p hget
  rw [hs.1] at hget
  rw [hs.2 p]
  exact h k p hget

theorem Holds.mono {P Q : ByteString → V → Prop} {c : ContextLRUCache V}
    (h : Holds P c) (hPQ : ∀ k v, P k v → Q k v) : Holds Q c := by
  intro k p hget
  obtain ⟨v, hv, hP⟩ := h k p hget
  exact ⟨v, hv, hPQ k v hP⟩

theorem holds_new (P : ByteString → V → Prop) (capacity now : Int) :
    Holds P (new capacity now) := by
  intro k p hget
  cases hget

theorem holds_removeNode {P : ByteString → V → Prop} {c : ContextLRUCache V}
    (h : Holds P c) (p : Nat) : Holds P (c.removeNode p) := by
  rw [removeNode]
  cases hp : c.heap[p]? with
  | none => exact h
  | some node =>
      dsimp only
      by_cases hkey : node.key = []
      -- a node without a key is the list's end marker and stays
      · rw [if_pos hkey]; exact h
      · rw [if_neg hkey]
        have hnode : c.contents p = some (node.key, node.value) := by
          rw [contents, hp]; rfl
        have hsame : SameContents { c with cache := c.cache.erase node.key }
            ((({ c with cache := c.cache.erase node.key } : ContextLRUCache V).unlinkPrev
              p).unlinkNext p) :=
          (sameContents_unlinkPrev _ p).trans (sameContents_unlinkNext _ p)
        generalize (({ c with cache := c.cache.erase node.key } : ContextLRUCache V).unlinkPrev
          p).unlinkNext p = d at hsame ⊢
        -- the keys still mapped are not the removed one, so their nodes are untouched
        have hwiped : Holds P (d.wipe p) := by
          intro k q hget
          have hget' : (c.cache.erase node.key).get? k = some q := by
            rw [← hget]
            exact congrArg (fun m => m.get? k) hsame.1.symm
          rw [InsertionMap.get?_erase] at hget'
          by_cases hk : k = node.key
          · rw [if_pos hk] at hget'; cases hget'
          · rw [if_neg hk] at hget'
            obtain ⟨v, hv, hP⟩ := h k q hget'
            have hpq : p ≠ q := by
              intro hpq
              rw [← hpq, hnode] at hv
              exact hk (congrArg Prod.fst (Option.some.inj hv)).symm
            refine ⟨v, ?_, hP⟩
            rw [wipe, contents_modifyNode, if_neg hpq, hsame.2 q]
            exact hv
        split
        · exact hwiped
        · exact hwiped

theorem holds_removeTail {P : ByteString → V → Prop} {c : ContextLRUCache V}
    (h : Holds P c) : Holds P c.removeTail := by
  rw [removeTail]
  split
  · exact h
  · exact holds_removeNode h _

theorem holds_removeKey {P : ByteString → V → Prop} {c : ContextLRUCache V}
    (h : Holds P c) (k : ByteString) : Holds P (c.removeKey k) := by
  rw [removeKey]
  split
  · exact holds_removeNode h _
  · exact h

theorem holds_removeKeys {P : ByteString → V → Prop} :
    ∀ (ks : List ByteString) {c : ContextLRUCache V}, Holds P c →
      Holds P (ks.foldl removeKey c) := by
  intro ks
  induction ks with
  | nil => intro c h; exact h
  | cons k ks ih => intro c h; exact ih (holds_removeKey h k)

theorem holds_cleanupExpiredEntries {P : ByteString → V → Prop} {c : ContextLRUCache V}
    (h : Holds P c) (now : Int) : Holds P (c.cleanupExpiredEntries now) := by
  rw [cleanupExpiredEntries]
  split
  · exact h
  · exact holds_removeKeys _ h

theorem holds_cleanupExpiredIfNeeded {P : ByteString → V → Prop} {c : ContextLRUCache V}
    (h : Holds P c) (now : Int) : Holds P (c.cleanupExpiredIfNeeded now) := by
  rw [cleanupExpiredIfNeeded]
  split
  · exact holds_cleanupExpiredEntries h now
  · exact h

/-- **GET.**  The cache keeps `P`, and an answer satisfies it at the key. -/
theorem holds_get {P : ByteString → V → Prop} {c : ContextLRUCache V}
    (h : Holds P c) (key : ByteString) (now : Int) :
    Holds P (c.get key now).2 ∧ ∀ v, (c.get key now).1 = some v → P key v := by
  have hd := holds_cleanupExpiredIfNeeded h now
  rw [get]
  generalize c.cleanupExpiredIfNeeded now = d at hd
  dsimp only
  cases hget : d.cache.get? key with
  | none => exact ⟨hd, fun v hv => (by cases hv)⟩
  | some p =>
      dsimp only
      cases hp : d.heap[p]? with
      | none => exact ⟨hd, fun v hv => (by cases hv)⟩
      | some node =>
          dsimp only
          split
          -- an expired entry is removed and not given out
          · exact ⟨holds_removeNode hd p, fun v hv => (by cases hv)⟩
          -- a hit touches the node and moves it to the front
          · have htouch : SameContents d
                (d.modifyNode p (fun n => { n with lastAccess := now })) := by
              refine ⟨rfl, fun q => ?_⟩
              rw [contents_modifyNode]
              split <;> rfl
            refine ⟨hd.congr (htouch.trans (sameContents_moveToFront _ p)), fun v hv => ?_⟩
            obtain ⟨v', hv', hP⟩ := hd key p hget
            rw [contents, hp] at hv'
            have : v = v' := by
              rw [← Option.some.inj hv]
              exact congrArg Prod.snd (Option.some.inj hv')
            rw [this]
            exact hP

/-- **WRITING.**  A `put` gives its key the value, and the other keys what they had. -/
theorem holds_write {P Q : ByteString → V → Prop} {c : ContextLRUCache V}
    (h : Holds P c) {key : ByteString} {value : V} (hv : Q key value)
    (hother : ∀ k v, k ≠ key → P k v → Q k v) (now : Int) : Holds Q (c.put key value now) := by
  have hd := holds_cleanupExpiredIfNeeded h now
  rw [put]
  generalize c.cleanupExpiredIfNeeded now = d at hd
  dsimp only
  cases hget : d.cache.get? key with
  | some p =>
      -- the node keeps its key; only the key asked for leads to it
      refine Holds.congr ?_ (sameContents_moveToFront _ p)
      intro k q hk
      obtain ⟨v, hv', hP⟩ := hd k q hk
      obtain ⟨w, hw, -⟩ := hd key p hget
      by_cases hkk : k = key
      · subst hkk
        obtain rfl : p = q := Option.some.inj (hget.symm.trans hk)
        refine ⟨value, ?_, hv⟩
        rw [contents_modifyNode, if_pos rfl]
        rw [contents] at hw
        obtain ⟨n, hn, hn'⟩ := Option.map_eq_some_iff.mp hw
        rw [hn]
        exact congrArg (fun x => some (x, value)) (congrArg Prod.fst hn')
      · have hpq : p ≠ q := by
          rintro rfl
          rw [hw] at hv'
          exact hkk (congrArg Prod.fst (Option.some.inj hv')).symm
        refine ⟨v, ?_, hother k v hkk hP⟩
        rw [contents_modifyNode, if_neg hpq]
        exact hv'
  | none =>
      -- a full cache drops its oldest entry before the new node is appended
      have he : Holds P (if d.size ≥ d.capacity then d.removeTail else d) := by
        split
        · exact holds_removeTail hd
        · exact hd
      generalize (if d.size ≥ d.capacity then d.removeTail else d) = e at he
      have hadd : Holds Q ({ e with
          heap := e.heap ++ [newNode key value now]
          cache := e.cache.insert key e.heap.length } : ContextLRUCache V) := by
        intro k q hk
        rw [InsertionMap.get?_insert] at hk
        by_cases hkk : k = key
        · rw [if_pos hkk] at hk
          rw [hkk, ← Option.some.inj hk]
          refine ⟨value, ?_, hv⟩
          show ((e.heap ++ [_])[e.heap.length]?).map _ = _
          rw [List.getElem?_append_right (Nat.le_refl _), Nat.sub_self]
          rfl
        · rw [if_neg hkk] at hk
          obtain ⟨v, hv', hP⟩ := he k q hk
          refine ⟨v, ?_, hother k v hkk hP⟩
          obtain ⟨n, hn, hn'⟩ := Option.map_eq_some_iff.mp hv'
          show ((e.heap ++ [_])[q]?).map _ = _
          rw [List.getElem?_append_left (List.getElem?_eq_some_iff.mp hn).1, hn]
          exact congrArg some hn'
      exact hadd.congr (sameContents_addToFront _ _)

/-- **PUT.**  A value satisfying `P` at its key keeps `P`. -/
theorem holds_put {P : ByteString → V → Prop} {c : ContextLRUCache V}
    (h : Holds P c) {key : ByteString} {value : V} (hv : P key value) (now : Int) :
    Holds P (c.put key value now) :=
  holds_write h hv (fun _ _ _ hP => hP) now

end ContextLRUCache

/-! ## The fast route cache -/

structure FastRouteCache (V : Type) where
  cache    : InsertionMap ByteString V
  capacity : Int
  enabled  : Bool

namespace FastRouteCache

def new (capacity : Int) : FastRouteCache V where
  cache := .empty
  capacity := capacity
  enabled := true

def get (c : FastRouteCache V) (key : ByteString) : Option V :=
  if ¬ c.enabled then none else c.cache.get? key

/-- A full cache is emptied before the write. -/
def put (c : FastRouteCache V) (key : ByteString) (value : V) : FastRouteCache V :=
  if ¬ c.enabled then c
  else
    let m := if (c.cache.len : Int) ≥ c.capacity then .empty else c.cache
    { c with cache := m.insert key value }

def clear (c : FastRouteCache V) : FastRouteCache V := { c with cache := .empty }

/-- Every cached value satisfies `P` at its key. -/
def Holds (P : ByteString → V → Prop) (c : FastRouteCache V) : Prop :=
  c.cache.AllValues P

theorem holds_new (P : ByteString → V → Prop) (capacity : Int) :
    Holds P (new capacity) := InsertionMap.allValues_empty P

theorem Holds.mono {P Q : ByteString → V → Prop} {c : FastRouteCache V}
    (h : Holds P c) (hPQ : ∀ k v, P k v → Q k v) : Holds Q c :=
  InsertionMap.AllValues.mono h hPQ

theorem get?_of_get {c : FastRouteCache V} {key : ByteString} {v : V}
    (hget : c.get key = some v) : c.cache.get? key = some v := by
  rw [FastRouteCache.get] at hget
  split at hget
  · cases hget
  · exact hget

theorem Holds.get {P : ByteString → V → Prop} {c : FastRouteCache V}
    (h : Holds P c) {key : ByteString} {v : V} (hget : c.get key = some v) : P key v :=
  h key v (get?_of_get hget)

theorem Holds.put {P : ByteString → V → Prop} {c : FastRouteCache V}
    (h : Holds P c) {key : ByteString} {value : V} (hv : P key value) :
    Holds P (c.put key value) := by
  rw [FastRouteCache.put]
  split
  · exact h
  · dsimp only
    split
    · exact InsertionMap.AllValues.insert (InsertionMap.allValues_empty P) hv
    · exact InsertionMap.AllValues.insert h hv

end FastRouteCache

end VHono
