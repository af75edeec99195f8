import VHono.App

/-! # The scope of mounted middlewares

    Which paths run the middlewares stored under a prefix.  The selection loop
    tests `starts_with`, while a mount at `/api` owns `/api` and what lies below
    `/api/`: the two differ exactly where a path continues the prefix inside a
    segment, and where a prefix stored with its trailing slash is asked for
    without it. -/

namespace VHono

open ByteString

namespace Hono

variable {E : RegexEngine} {M F : Type} (S : CompareSort)

/-- The three selection functions. -/
def selectors : List (Hono E M F → ByteString → List M) :=
  [getMiddlewaresForPath, getMiddlewaresForPathPicoev, getMiddlewaresForPathUsockets]

theorem eq_selectMiddlewares {select : Hono E M F → ByteString → List M}
    (h : select ∈ selectors) : select = selectMiddlewares := by
  simp only [selectors, List.mem_cons, List.not_mem_nil, or_false] at h
  rcases h with rfl | rfl | rfl <;> rfl

/-- The application with other middlewares under a prefix. -/
def storeUnder (app : Hono E M F) (pfx : ByteString) (mws : List M) : Hono E M F :=
  { app with routeMiddlewares := app.routeMiddlewares.insert pfx mws }

/-- Whatever is stored under the prefix, the path runs it. -/
def Includes (select : Hono E M F → ByteString → List M) (app : Hono E M F)
    (path pfx : ByteString) : Prop :=
  ∀ mws, mws <:+: select (app.storeUnder pfx mws) path

/-- A prefix without its trailing slash. -/
def trimSlash (pfx : ByteString) : ByteString :=
  if pfx.getLast? = some (byte '/') then pfx.dropLast else pfx

/-- The path is the mount point or lies below it. -/
def InScope (pfx path : ByteString) : Prop :=
  pfx = [byte '/'] ∨ path = trimSlash pfx ∨ trimSlash pfx ++ [byte '/'] <+: path

instance (pfx path : ByteString) : Decidable (InScope pfx path) :=
  inferInstanceAs (Decidable (_ ∨ _ ∨ _))

/-- A prefix without a trailing slash is not continued inside a segment, and one
    with a trailing slash is not asked for without it. -/
def SegmentBoundary (pfx path : ByteString) : Prop :=
  pfx = [byte '/'] ∨
  (pfx.getLast? = some (byte '/') ∧ path ≠ pfx.dropLast) ∨
  (pfx.getLast? ≠ some (byte '/') ∧
    ∀ b rest, path = pfx ++ b :: rest → b = byte '/')

/-! ## The prefix test against the segment test -/

theorem selectsPrefix_iff {path pfx : ByteString} :
    selectsPrefix path pfx = true ↔ pfx <+: path ∨ pfx = [byte '/'] := by
  simp [selectsPrefix, startsWith_iff]

/-- A prefix with a trailing slash misses the mount point itself. -/
theorem agree_of_trailing_slash {root path : ByteString} (hroot : root ≠ []) :
    (selectsPrefix path (root ++ [byte '/']) = true ↔ InScope (root ++ [byte '/']) path)
      ↔ path ≠ root := by
  have hne : root ++ [byte '/'] ≠ [byte '/'] := by
    intro h
    exact hroot (List.append_left_eq_self.mp h)
  have htrim : trimSlash (root ++ [byte '/']) = root := by
    simp [trimSlash]
  rw [selectsPrefix_iff, InScope, htrim]
  constructor
  · rintro h rfl
    have hpre : path ++ [byte '/'] <+: path ∨ path ++ [byte '/'] = [byte '/'] :=
      h.mpr (Or.inr (Or.inl rfl))
    rcases hpre with hpre | hpre
    · have := hpre.length_le
      rw [List.length_append, List.length_singleton] at this
      omega
    · exact hne hpre
  · intro hpath
    constructor
    · rintro (hpre | heq)
      · exact Or.inr (Or.inr hpre)
      · exact absurd heq hne
    · rintro (heq | heq | hpre)
      · exact absurd heq hne
      · exact absurd heq hpath
      · exact Or.inl hpre

/-- A prefix without one also takes paths that continue its last segment. -/
theorem agree_of_no_trailing_slash {pfx path : ByteString}
    (hlast : pfx.getLast? ≠ some (byte '/')) :
    (selectsPrefix path pfx = true ↔ InScope pfx path)
      ↔ ∀ b rest, path = pfx ++ b :: rest → b = byte '/' := by
  have hne : pfx ≠ [byte '/'] := by
    rintro rfl
    exact hlast rfl
  have htrim : trimSlash pfx = pfx := if_neg hlast
  rw [selectsPrefix_iff, InScope, htrim]
  constructor
  · intro h b rest hpath
    rcases h.mp (Or.inl ⟨b :: rest, hpath.symm⟩) with heq | heq | ⟨rest', hrest⟩
    · exact absurd heq hne
    · have hnil : b :: rest = [] := List.append_right_eq_self.mp (hpath.symm.trans heq)
      cases hnil
    · rw [hpath, List.append_assoc] at hrest
      exact (List.cons.inj (List.append_cancel_left hrest)).1.symm
  · intro h
    constructor
    · rintro (⟨rest, hrest⟩ | heq)
      · cases rest with
        | nil => exact Or.inr (Or.inl (by rw [← hrest, List.append_nil]))
        | cons b rest =>
            refine Or.inr (Or.inr ⟨rest, ?_⟩)
            rw [← hrest, h b rest hrest.symm, List.append_assoc]
            rfl
      · exact absurd heq hne
    · rintro (heq | heq | hpre)
      · exact absurd heq hne
      · exact Or.inl ⟨[], by rw [heq, List.append_nil]⟩
      · exact Or.inl ((List.prefix_append pfx _).trans hpre)

/-- **PREFIX AGAINST SEGMENT.**  The two tests agree exactly at segment boundaries. -/
theorem selectsPrefix_agrees_iff (pfx path : ByteString) :
    (selectsPrefix path pfx = true ↔ InScope pfx path) ↔ SegmentBoundary pfx path := by
  by_cases hroot : pfx = [byte '/']
  · have hsel : selectsPrefix path pfx = true := selectsPrefix_iff.mpr (Or.inr hroot)
    have hin : InScope pfx path := Or.inl hroot
    exact ⟨fun _ => Or.inl hroot, fun _ => ⟨fun _ => hin, fun _ => hsel⟩⟩
  · by_cases hlast : pfx.getLast? = some (byte '/')
    · obtain ⟨root, rfl⟩ := List.getLast?_eq_some_iff.mp hlast
      have hne : root ≠ [] := by
        rintro rfl
        exact hroot rfl
      rw [agree_of_trailing_slash hne]
      have hdrop : (root ++ [byte '/']).dropLast = root := List.dropLast_concat
      constructor
      · intro h
        exact Or.inr (Or.inl ⟨hlast, by rw [hdrop]; exact h⟩)
      · rintro (h | ⟨-, h⟩ | ⟨h, -⟩)
        · exact absurd h hroot
        · rw [hdrop] at h
          exact h
        · exact absurd hlast h
    · rw [agree_of_no_trailing_slash hlast]
      constructor
      · intro h
        exact Or.inr (Or.inr ⟨hlast, h⟩)
      · rintro (h | ⟨h, -⟩ | ⟨-, h⟩)
        · exact absurd h hroot
        · exact absurd h hlast
        · exact h

/-! ## What the selection loop includes -/

/-- A stored prefix is listed by the sort, whatever is stored under it later. -/
theorem mem_sortedPrefixes {app : Hono E M F} {pfx : ByteString} :
    pfx ∈ (app.precomputeMiddlewarePrefixes S).sortedMiddlewarePrefixes
      ↔ pfx ∈ app.routeMiddlewares.keys :=
  S.mem_sortBy

theorem selectMiddlewares_storeUnder {app : Hono E M F} {pfx : ByteString}
    (path : ByteString) (mws : List M) :
    (app.storeUnder pfx mws).selectMiddlewares path
      = app.contextMiddlewares ++ (app.storeUnder pfx mws).mountedMiddlewares path := by
  have hmem : (app.storeUnder pfx mws).routeMiddlewares.get? pfx = some mws :=
    InsertionMap.get?_insert_self _ _ _
  have hlen : (app.storeUnder pfx mws).routeMiddlewares.len ≠ 0 := by
    intro h
    have hentry := InsertionMap.mem_entries_of_get? hmem
    rw [List.length_eq_zero_iff.mp h] at hentry
    cases hentry
  rw [selectMiddlewares, if_neg hlen]
  rfl

/-- The loop includes the middlewares of a stored prefix exactly when it selects it. -/
theorem includes_iff_selects [Inhabited M] {app : Hono E M F} {pfx path : ByteString}
    (hpfx : pfx ∈ app.sortedMiddlewarePrefixes) :
    Includes selectMiddlewares app path pfx ↔ selectsPrefix path pfx = true := by
  constructor
  · intro h
    by_contra hsel
    -- nothing under an unselected prefix shows, so a list too long to fit is missing
    have hsame : ∀ mws, (app.storeUnder pfx mws).mountedMiddlewares path
        = app.mountedMiddlewares path := by
      intro mws
      refine List.flatMap_congr (fun p _ => ?_)
      by_cases hp : selectsPrefix path p = true
      · have hne : p ≠ pfx := fun heq => hsel (heq ▸ hp)
        rw [if_pos hp, if_pos hp]
        show ((app.routeMiddlewares.insert pfx mws).get? p).getD [] = _
        rw [InsertionMap.get?_insert_ne _ _ hne]
      · rw [if_neg hp, if_neg hp]
    let long : List M :=
      List.replicate (app.contextMiddlewares ++ app.mountedMiddlewares path).length.succ default
    have hinf := (h long).length_le
    rw [selectMiddlewares_storeUnder, hsame, List.length_replicate] at hinf
    omega
  · intro hsel mws
    rw [selectMiddlewares_storeUnder]
    have hget : (app.storeUnder pfx mws).routeMiddlewares.get? pfx = some mws :=
      InsertionMap.get?_insert_self _ _ _
    have hinf := List.infix_of_mem_flatten (List.mem_map_of_mem
      (f := fun p => if selectsPrefix path p then
        ((app.storeUnder pfx mws).routeMiddlewares.get? p).getD [] else []) hpfx)
    rw [if_pos hsel, hget] at hinf
    exact hinf.trans (List.suffix_append _ _).isInfix

/-- **MOUNTED SCOPE.**  Once the prefixes are precomputed, all three selection
    functions give a stored prefix its segment scope at a path if and only if the
    path meets the prefix at a segment boundary. -/
theorem mounted_scope_iff [Inhabited M] (app : Hono E M F) (pfx path : ByteString)
    (hpfx : pfx ∈ app.routeMiddlewares.keys) :
    (∀ select ∈ selectors,
      (Includes select (app.precomputeMiddlewarePrefixes S) path pfx ↔ InScope pfx path))
      ↔ SegmentBoundary pfx path := by
  have hmem := (mem_sortedPrefixes S).mpr hpfx
  rw [← selectsPrefix_agrees_iff]
  constructor
  · intro h
    have hsel := h selectMiddlewares (List.mem_cons_self ..)
    rw [includes_iff_selects hmem] at hsel
    exact hsel
  · intro h select hselect
    rw [eq_selectMiddlewares hselect, includes_iff_selects hmem]
    exact h

/-! ## A mount at `/api` -/

/-- A sub-app with one middleware, mounted at a prefix. -/
def mountedAt (pfx : String) : Hono segmentEngine Nat Nat :=
  (new 0).route .insertion (ascii pfx) ((new 0).useMiddleware 1)

theorem mounted_scope_below_api :
    (∀ select ∈ selectors,
      (Includes select ((mountedAt "/api").precomputeMiddlewarePrefixes .insertion)
        (ascii "/api/users") (ascii "/api") ↔ InScope (ascii "/api") (ascii "/api/users")))
      ↔ SegmentBoundary (ascii "/api") (ascii "/api/users") :=
  mounted_scope_iff .insertion (mountedAt "/api") _ _ (by decide)

/-- A path that merely starts with the same letters runs the sub-app's middlewares. -/
theorem apiv2_runs_api_middlewares :
    ¬ ∀ select ∈ selectors,
      (Includes select ((mountedAt "/api").precomputeMiddlewarePrefixes .insertion)
        (ascii "/apiv2") (ascii "/api") ↔ InScope (ascii "/api") (ascii "/apiv2")) := by
  intro h
  have hmem : ascii "/api" ∈
      ((mountedAt "/api").precomputeMiddlewarePrefixes .insertion).sortedMiddlewarePrefixes :=
    (mem_sortedPrefixes .insertion).mpr (by decide)
  have hin := (includes_iff_selects hmem).mpr
    (show selectsPrefix (ascii "/apiv2") (ascii "/api") = true by decide)
  exact absurd ((h selectMiddlewares (List.mem_cons_self ..)).mp hin) (by decide)

end Hono

end VHono
