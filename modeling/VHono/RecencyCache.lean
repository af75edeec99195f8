import VHono.RecencyHistory

/-! # Caches that drop what was used longest ago

    A bounded cache as the list of its entries, the one used last in front.
    Every `get` and `put` brings its entry to the front, and a `put` of a new
    key into a full cache drops the entry at the end.

    `Remembers` ties the entries to the history: they are the keys whose record
    is not out of date, in the order of their last uses. -/

namespace RecencyCache

variable {κ ν : Type*}

structure Entry (κ ν : Type*) where
  key   : κ
  value : ν
  last  : Int

structure Config where
  capacity : Int
  ttl      : Int
  interval : Int

structure Store (κ ν : Type*) where
  entries   : List (Entry κ ν)
  lastSweep : Int

/-- The keys that have an entry, the one used last in front. -/
def keysOf (es : List (Entry κ ν)) : List κ := es.map Entry.key

/-- The entries that are not out of date. -/
def fresh (ttl now : Int) (es : List (Entry κ ν)) : List (Entry κ ν) :=
  es.filter (fun e => ¬ Idle ttl e.last now)

/-- From time to time everything out of date is swept out. -/
def sweep (cfg : Config) (s : Store κ ν) (now : Int) : Store κ ν :=
  if now - s.lastSweep > cfg.interval then ⟨fresh cfg.ttl now s.entries, now⟩ else s

variable [DecidableEq κ]

def lookup (es : List (Entry κ ν)) (k : κ) : Option (Entry κ ν) :=
  es.find? (fun e => e.key = k)

def without (k : κ) (es : List (Entry κ ν)) : List (Entry κ ν) :=
  es.filter (fun e => ¬ e.key = k)

/-- The entries that make room for a new key. -/
def makeRoom (cfg : Config) (es : List (Entry κ ν)) : List (Entry κ ν) :=
  if cfg.capacity ≤ es.length then es.dropLast else es

def step (cfg : Config) (s : Store κ ν) (i : Call κ ν × Int) : Store κ ν × Option ν :=
  match i.1 with
  | .get k =>
      let s := sweep cfg s i.2
      match lookup s.entries k with
      | none => (s, none)
      | some e =>
          if Idle cfg.ttl e.last i.2 then ({ s with entries := without k s.entries }, none)
          else ({ s with entries := ⟨k, e.value, i.2⟩ :: without k s.entries }, some e.value)
  | .put k v =>
      let s := sweep cfg s i.2
      match lookup s.entries k with
      | some _ => ({ s with entries := ⟨k, v, i.2⟩ :: without k s.entries }, none)
      | none => ({ s with entries := ⟨k, v, i.2⟩ :: makeRoom cfg s.entries }, none)
  | .cleanup => ({ s with entries := fresh cfg.ttl i.2 s.entries }, none)
  | .clear => (⟨[], i.2⟩, none)

/-- The key a call throws out to make room. -/
def evicted (cfg : Config) (s : Store κ ν) (i : Call κ ν × Int) : Option κ :=
  match i.1 with
  | .put k _ =>
      let es := (sweep cfg s i.2).entries
      if k ∉ keysOf es ∧ cfg.capacity ≤ es.length then es.getLast?.map Entry.key else none
  | _ => none

def happening (cfg : Config) (s : Store κ ν) (i : Call κ ν × Int) : Happening κ ν :=
  ⟨i.1, i.2, evicted cfg s i⟩

/-! ## Reading the entries -/

theorem lookup_eq_none_iff {es : List (Entry κ ν)} {k : κ} :
    lookup es k = none ↔ k ∉ keysOf es := by
  simp [lookup, keysOf]

theorem mem_of_lookup {es : List (Entry κ ν)} {k : κ} {e : Entry κ ν} (h : lookup es k = some e) :
    e ∈ es ∧ e.key = k := by
  have hkey := List.find?_some h
  rw [decide_eq_true_eq] at hkey
  exact ⟨List.mem_of_find?_eq_some h, hkey⟩

theorem mem_keysOf_of_lookup {es : List (Entry κ ν)} {k : κ} {e : Entry κ ν}
    (h : lookup es k = some e) : k ∈ keysOf es := by
  obtain ⟨he, rfl⟩ := mem_of_lookup h
  exact List.mem_map.mpr ⟨e, he, rfl⟩

theorem mem_without {es : List (Entry κ ν)} {k : κ} {e : Entry κ ν} :
    e ∈ without k es ↔ e ∈ es ∧ e.key ≠ k := by
  simp [without]

theorem without_of_not_mem {es : List (Entry κ ν)} {k : κ} (h : k ∉ keysOf es) :
    without k es = es := by
  refine List.filter_eq_self.mpr ?_
  intro e he
  exact decide_eq_true (fun heq => h (List.mem_map.mpr ⟨e, he, heq⟩))

theorem mem_keysOf_without {es : List (Entry κ ν)} {k k' : κ} :
    k' ∈ keysOf (without k es) ↔ k' ∈ keysOf es ∧ k' ≠ k := by
  constructor
  · intro h
    obtain ⟨e, he, rfl⟩ := List.mem_map.mp h
    obtain ⟨hmem, hne⟩ := mem_without.mp he
    exact ⟨List.mem_map.mpr ⟨e, hmem, rfl⟩, hne⟩
  · rintro ⟨h, hne⟩
    obtain ⟨e, he, rfl⟩ := List.mem_map.mp h
    exact List.mem_map.mpr ⟨e, mem_without.mpr ⟨he, hne⟩, rfl⟩

/-! ## What a call comes to -/

section Calls

variable {cfg : Config} {s : Store κ ν} {k : κ} {v : ν} {time : Int} {e : Entry κ ν}

theorem step_get_miss (h : lookup (sweep cfg s time).entries k = none) :
    step cfg s (.get k, time) = (sweep cfg s time, none) := by
  simp only [step, h]

theorem step_get_stale (h : lookup (sweep cfg s time).entries k = some e)
    (hidle : Idle cfg.ttl e.last time) :
    step cfg s (.get k, time)
      = ({ sweep cfg s time with entries := without k (sweep cfg s time).entries }, none) := by
  simp only [step, h, if_pos hidle]

theorem step_get_hit (h : lookup (sweep cfg s time).entries k = some e)
    (hidle : ¬ Idle cfg.ttl e.last time) :
    step cfg s (.get k, time)
      = (⟨⟨k, e.value, time⟩ :: without k (sweep cfg s time).entries, (sweep cfg s time).lastSweep⟩,
          some e.value) := by
  simp only [step, h, if_neg hidle]

theorem step_put_present (h : lookup (sweep cfg s time).entries k = some e) :
    step cfg s (.put k v, time)
      = (⟨⟨k, v, time⟩ :: without k (sweep cfg s time).entries, (sweep cfg s time).lastSweep⟩,
          none) := by
  simp only [step, h]

theorem step_put_new (h : lookup (sweep cfg s time).entries k = none) :
    step cfg s (.put k v, time)
      = (⟨⟨k, v, time⟩ :: makeRoom cfg (sweep cfg s time).entries, (sweep cfg s time).lastSweep⟩,
          none) := by
  simp only [step, h]

end Calls

/-! ## The entries and the history -/

omit [DecidableEq κ] in
/-- `k` was used after the last use of `k'`. -/
def UsedAfter (H : List (Happening κ ν)) (k k' : κ) : Prop :=
  ∃ A B, H = A ++ B ∧ (∃ q ∈ B, q.Uses k) ∧ ∀ q ∈ B, ¬ q.Uses k'

/-- The entries are the keys whose record is not out of date at `now`, the one used last in
    front. -/
structure Remembers (cfg : Config) (H : List (Happening κ ν)) (now : Int)
    (es : List (Entry κ ν)) : Prop where
  nodup    : (keysOf es).Nodup
  recorded : ∀ e ∈ es, record cfg.ttl H e.key = some (e.value, e.last)
  gone     : ∀ k x, record cfg.ttl H k = some x → k ∉ keysOf es → Idle cfg.ttl x.2 now
  order    : es.Pairwise (fun e e' => UsedAfter H e.key e'.key)

variable {cfg : Config} {H : List (Happening κ ν)} {now : Int} {es rest : List (Entry κ ν)}

omit [DecidableEq κ] in
theorem UsedAfter.concat {k k' : κ} (h : UsedAfter H k k') {q : Happening κ ν}
    (hq : ¬ q.Uses k') : UsedAfter (H ++ [q]) k k' := by
  obtain ⟨A, B, rfl, ⟨r, hr, hruse⟩, hB⟩ := h
  refine ⟨A, B ++ [q], by simp, ⟨r, List.mem_append_left _ hr, hruse⟩, ?_⟩
  intro x hx
  rcases List.mem_append.mp hx with hx | hx
  · exact hB x hx
  · rw [List.mem_singleton.mp hx]
    exact hq

omit [DecidableEq κ] in
/-- What a call uses was used after everything else. -/
theorem usedAfter_concat {k k' : κ} {q : Happening κ ν} (hq : q.Uses k) (hne : k ≠ k') :
    UsedAfter (H ++ [q]) k k' := by
  refine ⟨H, [q], rfl, ⟨q, List.mem_singleton_self q, hq⟩, ?_⟩
  intro r hr huse
  rw [List.mem_singleton.mp hr] at huse
  exact hne (hq.unique huse)

/-- Nothing comes back by waiting. -/
theorem Remembers.later (h : Remembers cfg H now es) {now' : Int} (hle : now ≤ now') :
    Remembers cfg H now' es :=
  ⟨h.nodup, h.recorded, fun k x hx hk => (h.gone k x hx hk).mono hle, h.order⟩

theorem Remembers.fresh (h : Remembers cfg H now es) :
    Remembers cfg H now (fresh cfg.ttl now es) := by
  have hsub : (RecencyCache.fresh cfg.ttl now es).Sublist es := List.filter_sublist
  refine ⟨h.nodup.sublist (hsub.map _), fun e he => h.recorded e (hsub.subset he), ?_,
    h.order.sublist hsub⟩
  intro k x hx hk
  by_cases hes : k ∈ keysOf es
  · obtain ⟨e, he, rfl⟩ := List.mem_map.mp hes
    have hrec := h.recorded e he
    rw [hx] at hrec
    by_contra hidle
    refine hk (List.mem_map.mpr ⟨e, List.mem_filter.mpr ⟨he, ?_⟩, rfl⟩)
    rw [Option.some.inj hrec] at hidle
    exact decide_eq_true hidle
  · exact h.gone k x hx hes

theorem Remembers.sweep {s : Store κ ν} (h : Remembers cfg H now s.entries) {now' : Int}
    (hle : now ≤ now') : Remembers cfg H now' (sweep cfg s now').entries := by
  rw [RecencyCache.sweep]
  split
  · exact (h.later hle).fresh
  · exact h.later hle

/-- The entries that a call leaves alone. -/
theorem Remembers.untouched (h : Remembers cfg H now es) {q : Happening κ ν} (hsub : rest.Sublist es)
    (hrest : ∀ e ∈ rest, ¬ q.Uses e.key ∧ ¬ q.Ends e.key) :
    (keysOf rest).Nodup ∧
      (∀ e ∈ rest, record cfg.ttl (H ++ [q]) e.key = some (e.value, e.last)) ∧
      rest.Pairwise (fun e e' => UsedAfter (H ++ [q]) e.key e'.key) := by
  refine ⟨h.nodup.sublist (hsub.map _), ?_, ?_⟩
  · intro e he
    obtain ⟨huse, hend⟩ := hrest e he
    rw [record_concat, note_other huse hend]
    exact h.recorded e (hsub.subset he)
  · refine (h.order.sublist hsub).imp_of_mem ?_
    intro e e' _ he' hafter
    exact hafter.concat (hrest e' he').1

/-- A call that takes entries out. -/
theorem Remembers.keep (h : Remembers cfg H now es) {q : Happening κ ν} (hsub : rest.Sublist es)
    (hrest : ∀ e ∈ rest, ¬ q.Uses e.key ∧ ¬ q.Ends e.key)
    (hgone : ∀ k x, record cfg.ttl (H ++ [q]) k = some x → k ∉ keysOf rest →
      Idle cfg.ttl x.2 now) : Remembers cfg (H ++ [q]) now rest := by
  obtain ⟨hnodup, hrecorded, horder⟩ := h.untouched hsub hrest
  exact ⟨hnodup, hrecorded, hgone, horder⟩

/-- A call that brings its entry to the front. -/
theorem Remembers.bring (h : Remembers cfg H now es) {q : Happening κ ν} (hsub : rest.Sublist es)
    (hrest : ∀ e ∈ rest, ¬ q.Uses e.key ∧ ¬ q.Ends e.key) {e : Entry κ ν} (huse : q.Uses e.key)
    (he : record cfg.ttl (H ++ [q]) e.key = some (e.value, e.last))
    (hgone : ∀ k x, record cfg.ttl (H ++ [q]) k = some x → k ≠ e.key → k ∉ keysOf rest →
      Idle cfg.ttl x.2 now) : Remembers cfg (H ++ [q]) now (e :: rest) := by
  obtain ⟨hnodup, hrecorded, horder⟩ := h.untouched hsub hrest
  have hne : ∀ e' ∈ rest, e.key ≠ e'.key := by
    intro e' he' heq
    exact (hrest e' he').1 (heq ▸ huse)
  refine ⟨?_, ?_, ?_, ?_⟩
  · refine List.nodup_cons.mpr ⟨?_, hnodup⟩
    intro hmem
    obtain ⟨e', he', heq⟩ := List.mem_map.mp hmem
    exact hne e' he' heq.symm
  · rintro e' (_ | ⟨_, he'⟩)
    · exact he
    · exact hrecorded e' he'
  · intro k x hx hk
    rw [keysOf, List.map_cons, List.mem_cons, not_or] at hk
    exact hgone k x hx hk.1 hk.2
  · exact List.pairwise_cons.mpr ⟨fun e' he' => usedAfter_concat huse (hne e' he'), horder⟩

/-! ## The calls -/

omit [DecidableEq κ] in
/-- Without room to make a call throws out nothing. -/
theorem not_ends_of_evicted_none {q : Happening κ ν} (hcall : q.call ≠ .clear)
    (hevicted : q.evicted = none) (k : κ) : ¬ q.Ends k := by
  rintro (hclear | hk)
  · exact hcall hclear
  · rw [hevicted] at hk
    cases hk

/-- A key asked for in vain. -/
theorem Remembers.get_miss (h : Remembers cfg H now es) {q : Happening κ ν} {k : κ}
    (hget : q.Gets k) (hend : ∀ k, ¬ q.Ends k) (htime : q.time = now) (hk : k ∉ keysOf es) :
    Remembers cfg (H ++ [q]) now es := by
  refine h.keep (List.Sublist.refl es) ?_ ?_
  · intro e he
    refine ⟨?_, hend e.key⟩
    intro huse
    exact hk (List.mem_map.mpr ⟨e, he, huse.unique hget.uses⟩)
  · intro k' x hx hk'
    rw [record_concat] at hx
    by_cases hkk : k' = k
    · subst hkk
      obtain ⟨-, last, hlast, hfresh⟩ := (note_gets hget (hend k')).mp hx
      rw [htime] at hfresh
      exact absurd (h.gone k' _ hlast hk) hfresh
    · rw [note_other (fun huse => hkk (huse.unique hget.uses)) (hend k')] at hx
      exact h.gone k' x hx hk'

/-- A key whose entry is out of date loses it when it is asked for. -/
theorem Remembers.get_stale (h : Remembers cfg H now es) {q : Happening κ ν} {e : Entry κ ν}
    (hget : q.Gets e.key) (hend : ∀ k, ¬ q.Ends k) (htime : q.time = now) (he : e ∈ es)
    (hidle : Idle cfg.ttl e.last now) : Remembers cfg (H ++ [q]) now (without e.key es) := by
  refine h.keep List.filter_sublist ?_ ?_
  · intro e' he'
    exact ⟨fun huse => (mem_without.mp he').2 (huse.unique hget.uses), hend e'.key⟩
  · intro k x hx hk
    rw [record_concat] at hx
    by_cases hkk : k = e.key
    · subst hkk
      obtain ⟨-, last, hlast, hfresh⟩ := (note_gets hget (hend e.key)).mp hx
      rw [h.recorded e he] at hlast
      obtain ⟨-, rfl⟩ := Prod.mk.inj (Option.some.inj hlast)
      rw [htime] at hfresh
      exact absurd hidle hfresh
    · rw [note_other (fun huse => hkk (huse.unique hget.uses)) (hend k)] at hx
      exact h.gone k x hx (fun hmem => hk (mem_keysOf_without.mpr ⟨hmem, hkk⟩))

/-- A call that uses a key and throws out nothing puts its entry in front. -/
theorem Remembers.use (h : Remembers cfg H now es) {q : Happening κ ν} {e : Entry κ ν}
    (huse : q.Uses e.key) (hend : ∀ k, ¬ q.Ends k)
    (he : record cfg.ttl (H ++ [q]) e.key = some (e.value, e.last)) :
    Remembers cfg (H ++ [q]) now (e :: without e.key es) := by
  have hsub : (without e.key es).Sublist es := List.filter_sublist
  refine h.bring hsub ?_ huse he ?_
  · intro e' he'
    exact ⟨fun huse' => (mem_without.mp he').2 (huse'.unique huse), hend e'.key⟩
  · intro k x hx hne hk
    rw [record_concat, note_other (fun huse' => hne (huse'.unique huse)) (hend k)] at hx
    exact h.gone k x hx (fun hmem => hk (mem_keysOf_without.mpr ⟨hmem, hne⟩))

/-- A new key in a full cache takes the place of the entry at the end. -/
theorem Remembers.replace {e o : Entry κ ν} (h : Remembers cfg H now (rest ++ [o]))
    {q : Happening κ ν} (hnew : e.key ∉ keysOf (rest ++ [o])) (hput : q.call = .put e.key e.value)
    (htime : q.time = e.last) (hevicted : q.evicted = some o.key) :
    Remembers cfg (H ++ [q]) now (e :: rest) := by
  have huse : q.Uses e.key := Happening.Puts.uses ⟨e.value, hput⟩
  have hends : ∀ k, q.Ends k → k = o.key := by
    rintro k (hclear | hk)
    · rw [hput] at hclear
      cases hclear
    · rw [hevicted] at hk
      exact (Option.some.inj hk).symm
  have hother : ∀ k, k ≠ e.key → ¬ q.Uses k := fun k hne huse' => hne (huse'.unique huse)
  have hnodup : (keysOf rest ++ [o.key]).Nodup := by
    have := h.nodup
    rwa [keysOf, List.map_append] at this
  refine h.bring (List.sublist_append_left _ _) ?_ huse ?_ ?_
  · intro e' he'
    have hmem : e'.key ∈ keysOf rest := List.mem_map.mpr ⟨e', he', rfl⟩
    refine ⟨hother _ ?_, ?_⟩
    · intro heq
      refine hnew (heq ▸ ?_)
      exact List.mem_map.mpr ⟨e', List.mem_append_left _ he', rfl⟩
    · intro hend
      exact (List.nodup_append.mp hnodup).2.2 _ hmem _ (List.mem_singleton_self _) (hends _ hend)
  · rw [record_concat, note_puts hput, htime]
  · intro k x hx hne hk
    rw [record_concat] at hx
    by_cases hend : q.Ends k
    · have hput' : ¬ q.Puts k := fun hputs => hother k hne hputs.uses
      rw [note_ends hend hput'] at hx
      cases hx
    · rw [note_other (hother k hne) hend] at hx
      refine h.gone k x hx ?_
      rw [keysOf, List.map_append, List.mem_append, not_or]
      refine ⟨hk, ?_⟩
      intro hmem
      exact hend (Or.inr (by rw [hevicted, List.mem_singleton.mp hmem]))

variable {s : Store κ ν} {i : Call κ ν × Int}

/-- **ONE CALL.**  Whatever is called at a time that is not before the last one, the entries and
    the history agree again. -/
theorem Remembers.step (h : Remembers cfg H now s.entries) (hle : now ≤ i.2) :
    Remembers cfg (H ++ [happening cfg s i]) i.2 (step cfg s i).1.entries := by
  obtain ⟨call, time⟩ := i
  have hsweep : Remembers cfg H time (RecencyCache.sweep cfg s time).entries := h.sweep hle
  cases call with
  | get k =>
      have hend : ∀ k', ¬ (happening cfg s (.get k, time)).Ends k' :=
        not_ends_of_evicted_none (by rintro ⟨⟩) rfl
      have hget : (happening cfg s (.get k, time)).Gets k := rfl
      cases hlookup : lookup (RecencyCache.sweep cfg s time).entries k with
      | none =>
          rw [step_get_miss hlookup]
          exact hsweep.get_miss hget hend rfl (lookup_eq_none_iff.mp hlookup)
      | some e =>
          obtain ⟨he, rfl⟩ := mem_of_lookup hlookup
          by_cases hidle : Idle cfg.ttl e.last time
          · rw [step_get_stale hlookup hidle]
            exact hsweep.get_stale hget hend rfl he hidle
          · rw [step_get_hit hlookup hidle]
            refine hsweep.use (e := ⟨e.key, e.value, time⟩) hget.uses hend ?_
            rw [record_concat]
            exact (note_gets hget (hend e.key)).mpr ⟨rfl, e.last, hsweep.recorded e he, hidle⟩
  | put k v =>
      have hput : (happening cfg s (.put k v, time)).call = .put k v := rfl
      have hrec : record cfg.ttl (H ++ [happening cfg s (.put k v, time)]) k = some (v, time) := by
        rw [record_concat]
        exact note_puts hput
      have huse : (happening cfg s (.put k v, time)).Uses k := rfl
      -- a put that throws out nothing
      have hplain : evicted cfg s (.put k v, time) = none →
          Remembers cfg (H ++ [happening cfg s (.put k v, time)]) time
            (⟨k, v, time⟩ :: without k (RecencyCache.sweep cfg s time).entries) := by
        intro hnone
        exact hsweep.use (e := ⟨k, v, time⟩) huse
          (not_ends_of_evicted_none (by rintro ⟨⟩) hnone) hrec
      cases hlookup : lookup (RecencyCache.sweep cfg s time).entries k with
      | some e =>
          rw [step_put_present hlookup]
          exact hplain (if_neg (fun hnew => hnew.1 (mem_keysOf_of_lookup hlookup)))
      | none =>
          have hnew := lookup_eq_none_iff.mp hlookup
          rw [step_put_new hlookup]
          rw [without_of_not_mem hnew] at hplain
          show Remembers cfg _ time (⟨k, v, time⟩ :: makeRoom cfg _)
          rw [makeRoom]
          by_cases hfull : cfg.capacity ≤ (RecencyCache.sweep cfg s time).entries.length
          · rw [if_pos hfull]
            have hevicted : evicted cfg s (.put k v, time)
                = (RecencyCache.sweep cfg s time).entries.getLast?.map Entry.key :=
              if_pos ⟨hnew, hfull⟩
            generalize (RecencyCache.sweep cfg s time).entries = es at hsweep hnew hevicted hplain
            cases es using List.reverseRecOn with
            | nil => exact hplain hevicted
            | append_singleton rest o =>
                rw [List.getLast?_concat] at hevicted
                rw [List.dropLast_concat]
                exact hsweep.replace (e := ⟨k, v, time⟩) hnew hput rfl hevicted
          · rw [if_neg hfull]
            exact hplain (if_neg (fun h => hfull h.2))
  | cleanup =>
      have hend : ∀ k', ¬ (happening cfg s (.cleanup, time)).Ends k' :=
        not_ends_of_evicted_none (by rintro ⟨⟩) rfl
      have huse : ∀ k', ¬ (happening cfg s (.cleanup, time)).Uses k' := by
        rintro k' ⟨⟩
      have hfresh := (h.later hle).fresh
      refine hfresh.keep (List.Sublist.refl _) (fun e _ => ⟨huse e.key, hend e.key⟩) ?_
      intro k x hx hk
      rw [record_concat, note_other (huse k) (hend k)] at hx
      exact hfresh.gone k x hx hk
  | clear =>
      refine (h.later hle).keep (List.nil_sublist _) (fun e he => absurd he List.not_mem_nil) ?_
      intro k x hx _
      rw [record_concat] at hx
      cases hx

/-- **WHAT IS ANSWERED.**  A `get` answers with what the history holds under the key. -/
theorem Remembers.answer (h : Remembers cfg H now s.entries) {k : κ} {time : Int}
    (hle : now ≤ time) (v : ν) :
    (RecencyCache.step cfg s (.get k, time)).2 = some v ↔ Held cfg.ttl H k v time := by
  have hsweep : Remembers cfg H time (RecencyCache.sweep cfg s time).entries := h.sweep hle
  rw [held_iff_record]
  cases hlookup : lookup (RecencyCache.sweep cfg s time).entries k with
  | none =>
      rw [step_get_miss hlookup]
      constructor
      · rintro ⟨⟩
      · rintro ⟨last, hrec, hidle⟩
        exact absurd (hsweep.gone k _ hrec (lookup_eq_none_iff.mp hlookup)) hidle
  | some e =>
      obtain ⟨he, rfl⟩ := mem_of_lookup hlookup
      rw [hsweep.recorded e he]
      by_cases hidle : Idle cfg.ttl e.last time
      · rw [step_get_stale hlookup hidle]
        constructor
        · rintro ⟨⟩
        · rintro ⟨last, hrec, hfresh⟩
          obtain ⟨-, rfl⟩ := Prod.mk.inj (Option.some.inj hrec)
          exact absurd hidle hfresh
      · rw [step_get_hit hlookup hidle]
        constructor
        · rintro ⟨⟩
          exact ⟨e.last, rfl, hidle⟩
        · rintro ⟨last, hrec, -⟩
          obtain ⟨rfl, -⟩ := Prod.mk.inj (Option.some.inj hrec)
          rfl

/-- **WHAT IS THROWN OUT.**  A new key takes the place of the one whose last use is before the
    last use of every other. -/
theorem Remembers.evicts_oldest (h : Remembers cfg H now s.entries) {k : κ} {v : ν} {time : Int}
    (hle : now ≤ time) (hnew : k ∉ keysOf (RecencyCache.sweep cfg s time).entries)
    (hfull : cfg.capacity ≤ (RecencyCache.sweep cfg s time).entries.length)
    (hpos : 1 ≤ cfg.capacity) :
    ∃ old ∈ keysOf (RecencyCache.sweep cfg s time).entries,
      evicted cfg s (.put k v, time) = some old ∧
      ∀ k' ∈ keysOf (RecencyCache.sweep cfg s time).entries, k' ≠ old → UsedAfter H k' old := by
  have hsweep : Remembers cfg H time (RecencyCache.sweep cfg s time).entries := h.sweep hle
  have hevicted : evicted cfg s (.put k v, time)
      = (RecencyCache.sweep cfg s time).entries.getLast?.map Entry.key := if_pos ⟨hnew, hfull⟩
  rw [hevicted]
  generalize (RecencyCache.sweep cfg s time).entries = es at hsweep hfull ⊢
  cases es using List.reverseRecOn with
  | nil =>
      rw [List.length_nil] at hfull
      omega
  | append_singleton rest o =>
      refine ⟨o.key, List.mem_map.mpr ⟨o, by simp, rfl⟩, by rw [List.getLast?_concat]; rfl, ?_⟩
      intro k' hk' hne
      obtain ⟨e, he, rfl⟩ := List.mem_map.mp hk'
      rcases List.mem_append.mp he with he | he
      · exact (List.pairwise_append.mp hsweep.order).2.2 e he o (List.mem_singleton_self o)
      · exact absurd (congrArg Entry.key (List.mem_singleton.mp he)) hne

omit [DecidableEq κ] in
theorem length_fresh_le (ttl now : Int) (es : List (Entry κ ν)) :
    (fresh ttl now es).length ≤ es.length := List.length_filter_le ..

omit [DecidableEq κ] in
theorem length_sweep_le (cfg : Config) (s : Store κ ν) (now : Int) :
    (sweep cfg s now).entries.length ≤ s.entries.length := by
  rw [sweep]
  split
  · exact length_fresh_le ..
  · exact Nat.le_refl _

/-- **WHAT FITS.**  A call leaves no more entries than there is room for. -/
theorem step_length (hpos : 1 ≤ cfg.capacity) (h : (s.entries.length : Int) ≤ cfg.capacity) :
    ((step cfg s i).1.entries.length : Int) ≤ cfg.capacity := by
  obtain ⟨call, time⟩ := i
  have hsweep := length_sweep_le cfg s time
  have hwithout : ∀ k, (without k (sweep cfg s time).entries).length
      ≤ (sweep cfg s time).entries.length := fun k => List.length_filter_le ..
  -- an entry that comes to the front was there before
  have hfront : ∀ {k e}, lookup (sweep cfg s time).entries k = some e →
      (without k (sweep cfg s time).entries).length < (sweep cfg s time).entries.length := by
    intro k e hlookup
    obtain ⟨he, hkey⟩ := mem_of_lookup hlookup
    exact List.length_filter_lt_length_iff_exists.mpr ⟨e, he, by simp [hkey]⟩
  cases call with
  | get k =>
      cases hlookup : lookup (sweep cfg s time).entries k with
      | none =>
          rw [step_get_miss hlookup]
          show ((sweep cfg s time).entries.length : Int) ≤ _
          omega
      | some e =>
          have := hfront hlookup
          by_cases hidle : Idle cfg.ttl e.last time
          · rw [step_get_stale hlookup hidle]
            show ((without k (sweep cfg s time).entries).length : Int) ≤ _
            omega
          · rw [step_get_hit hlookup hidle]
            show (((without k (sweep cfg s time).entries).length + 1 : Nat) : Int) ≤ _
            omega
  | put k v =>
      cases hlookup : lookup (sweep cfg s time).entries k with
      | some e =>
          have := hfront hlookup
          rw [step_put_present hlookup]
          show (((without k (sweep cfg s time).entries).length + 1 : Nat) : Int) ≤ _
          omega
      | none =>
          rw [step_put_new hlookup]
          show (((makeRoom cfg (sweep cfg s time).entries).length + 1 : Nat) : Int) ≤ _
          rw [makeRoom]
          split
          · rw [List.length_dropLast]
            omega
          · omega
  | cleanup =>
      have := length_fresh_le cfg.ttl time s.entries
      show ((fresh cfg.ttl time s.entries).length : Int) ≤ _
      omega
  | clear =>
      show ((0 : Nat) : Int) ≤ _
      omega

/-- A `put` takes out the key it evicts and no other. -/
theorem put_removes {k : κ} {v : ν} {time : Int}
    (hnodup : (keysOf (sweep cfg s time).entries).Nodup) (k' : κ) :
    k' ∈ keysOf (sweep cfg s time).entries ∧
        k' ∉ keysOf (step cfg s (.put k v, time)).1.entries
      ↔ evicted cfg s (.put k v, time) = some k' := by
  have hevicted : evicted cfg s (.put k v, time)
      = if k ∉ keysOf (sweep cfg s time).entries ∧
          cfg.capacity ≤ (sweep cfg s time).entries.length
        then (sweep cfg s time).entries.getLast?.map Entry.key else none := rfl
  rw [hevicted]
  cases hlookup : lookup (sweep cfg s time).entries k with
  | some e =>
      rw [step_put_present hlookup, if_neg (fun h => h.1 (mem_keysOf_of_lookup hlookup))]
      constructor
      · rintro ⟨hmem, hnot⟩
        rw [keysOf, List.map_cons, List.mem_cons, not_or] at hnot
        exact absurd (mem_keysOf_without.mpr ⟨hmem, hnot.1⟩) hnot.2
      · rintro ⟨⟩
  | none =>
      have hnew := lookup_eq_none_iff.mp hlookup
      rw [step_put_new hlookup]
      generalize (sweep cfg s time).entries = es at hnew hnodup ⊢
      show _ ∧ k' ∉ k :: keysOf (makeRoom cfg es) ↔ _
      rw [makeRoom, List.mem_cons, not_or]
      by_cases hfull : cfg.capacity ≤ es.length
      · rw [if_pos hfull, if_pos ⟨hnew, hfull⟩]
        cases es using List.reverseRecOn with
        | nil =>
            constructor
            · rintro ⟨hmem, -⟩
              cases hmem
            · rintro ⟨⟩
        | append_singleton rest o =>
            rw [keysOf, List.map_append] at hnodup hnew ⊢
            rw [List.getLast?_concat, List.dropLast_concat]
            constructor
            · rintro ⟨hmem, -, hnot⟩
              rcases List.mem_append.mp hmem with hmem | hmem
              · exact absurd hmem hnot
              · rw [List.mem_singleton.mp hmem]
                rfl
            · rintro ⟨⟩
              have hlast : o.key ∈ rest.map Entry.key ++ [o].map Entry.key :=
                List.mem_append_right _ (List.mem_singleton_self _)
              refine ⟨hlast, ?_, ?_⟩
              · intro heq
                exact hnew (heq ▸ hlast)
              · intro hmem
                exact (List.nodup_append.mp hnodup).2.2 _ hmem _ (List.mem_singleton_self _) rfl
      · rw [if_neg hfull, if_neg (fun h => hfull h.2)]
        constructor
        · rintro ⟨hmem, -, hnot⟩
          exact absurd hmem hnot
        · rintro ⟨⟩

/-- A cache that holds nothing and has no history. -/
theorem remembers_empty (cfg : Config) (now : Int) :
    Remembers cfg ([] : List (Happening κ ν)) now [] where
  nodup := List.nodup_nil
  recorded := fun e he => absurd he List.not_mem_nil
  gone := by
    intro k x hx
    cases hx
  order := List.Pairwise.nil

end RecencyCache
