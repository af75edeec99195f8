import VHono.App
import VHono.EdgeTree
import VHono.MachineRuns

/-! # Middlewares over a tree of mounted applications

    Applications are built by `use`, route registration and `route` in any
    order, with requests in between.  A forest keeps all of them, and the log
    of mounts with the middlewares each mount copied.  Middlewares and handlers
    carry the application they were given to, so a matched handler names the
    application that owns its route.

    The middlewares around a matched handler are compared with the root's own
    followed by those of every application on the mount chain. -/

namespace VHono

open ByteString EdgeTree MachineRuns

variable {E : RegexEngine} {M F : Type}

abbrev AppId := Nat

/-- `parent.route(pfx, child)`, with the child's middlewares of that moment. -/
structure Mount (M : Type) where
  parent   : AppId
  child    : AppId
  pfx      : ByteString
  snapshot : List (AppId × M)

/-- Applications by name, whose middlewares and handlers carry their owner. -/
structure Forest (E : RegexEngine) (M F : Type) where
  apps   : AppId → Hono E (AppId × M) (AppId × F)
  mounts : List (Mount M)

inductive BuildCall (M F : Type) where
  | useMiddleware (app : AppId) (mw : M)
  | on (app : AppId) (m : RouteMethod) (path : ByteString) (handler : F)
  | route (app : AppId) (pfx : ByteString) (subapp : AppId)
  | request (app : AppId) (method path : ByteString) (now : Int)

namespace Forest

variable (S : CompareSort)

/-- Every application is new. -/
def initial (now : Int) : Forest E M F where
  apps := fun _ => .new now
  mounts := []

def setApp (fo : Forest E M F) (a : AppId) (app : Hono E (AppId × M) (AppId × F)) :
    Forest E M F :=
  { fo with apps := Function.update fo.apps a app }

@[simp] theorem apps_setApp_self (fo : Forest E M F) (a : AppId)
    (app : Hono E (AppId × M) (AppId × F)) : (fo.setApp a app).apps a = app :=
  Function.update_self ..

theorem apps_setApp_ne (fo : Forest E M F) {a a' : AppId} (h : a' ≠ a)
    (app : Hono E (AppId × M) (AppId × F)) : (fo.setApp a app).apps a' = fo.apps a' :=
  Function.update_of_ne h ..

/-- The own middlewares of an application, as `use` gave them. -/
def own (fo : Forest E M F) (a : AppId) : List (AppId × M) := (fo.apps a).contextMiddlewares

def edges (fo : Forest E M F) : List (AppId × AppId) :=
  fo.mounts.map (fun mt => (mt.parent, mt.child))

def build (fo : Forest E M F) : BuildCall M F → Forest E M F
  | .useMiddleware a mw => fo.setApp a ((fo.apps a).useMiddleware (a, mw))
  | .on a m path handler => fo.setApp a ((fo.apps a).on S m path (a, handler))
  | .route a pfx b =>
    { fo.setApp a ((fo.apps a).route S pfx (fo.apps b)) with
      mounts := fo.mounts ++ [⟨a, b, pfx, fo.own b⟩] }
  | .request a method path now =>
    fo.setApp a ((fo.apps a).matchRequest method path now).2

theorem apps_build_route (fo : Forest E M F) (a b : AppId) (pfx : ByteString) :
    (fo.build S (.route a pfx b)).apps
      = (fo.setApp a ((fo.apps a).route S pfx (fo.apps b))).apps := rfl

/-- The building calls as a machine without outputs. -/
def buildStep (fo : Forest E M F) (call : BuildCall M F) : Forest E M F × Unit :=
  (fo.build S call, ())

/-- The forest a list of calls builds. -/
def grown (now : Int) (calls : List (BuildCall M F)) : Forest E M F :=
  final (buildStep S) (initial now) calls

/-! ## The invariant of the build -/

/-- What the mounts of `a` at a prefix copied, in order. -/
def copied (fo : Forest E M F) (a : AppId) (pfx : ByteString) : List (AppId × M) :=
  (fo.mounts.filter (fun mt => mt.parent = a ∧ mt.pfx = pfx)).flatMap (·.snapshot)

/-- A mount chain leads from `a` to the owner of the handler. -/
def OwnerBelow (fo : Forest E M F) (a : AppId) (handler : AppId × F) : Prop :=
  ∃ l, Chain fo.edges a l handler.1

structure Built (fo : Forest E M F) : Prop where
  /-- own middlewares carry their owner -/
  tagged   : ∀ a, ∀ x ∈ fo.own a, x.1 = a
  /-- copies carry the application they were copied from -/
  copies   : ∀ mt ∈ fo.mounts, ∀ x ∈ mt.snapshot, x.1 = mt.child
  /-- what is stored under a prefix is what the mounts there copied -/
  stored   : ∀ a pfx, ((fo.apps a).routeMiddlewares.get? pfx).getD [] = fo.copied a pfx
  /-- every handler is owned below the application it is found in -/
  handlers : ∀ a, (fo.apps a).AllHandlers (fo.OwnerBelow a)

theorem built_initial (now : Int) : Built (initial now : Forest E M F) where
  tagged := fun _ _ hx => (by cases hx)
  copies := fun _ hmt => (by cases hmt)
  stored := fun _ _ => rfl
  handlers := fun _ => Hono.allHandlers_new _ now

/-- A call that keeps every mount and the middlewares of every application. -/
theorem Built.setApp {fo : Forest E M F} (h : Built fo) (a : AppId)
    {app : Hono E (AppId × M) (AppId × F)}
    (htag : ∀ x ∈ app.contextMiddlewares, x.1 = a)
    (hstored : app.routeMiddlewares = (fo.apps a).routeMiddlewares)
    (hall : app.AllHandlers (fo.OwnerBelow a)) : Built (fo.setApp a app) := by
  refine ⟨?_, h.copies, ?_, ?_⟩
  · intro a' x hx
    by_cases ha : a' = a
    · subst ha
      rw [own, apps_setApp_self] at hx
      exact htag x hx
    · rw [own, apps_setApp_ne _ ha] at hx
      exact h.tagged a' x hx
  · intro a' pfx
    have hst := h.stored a' pfx
    by_cases ha : a' = a
    · subst ha
      rw [apps_setApp_self, hstored]
      exact hst
    · rw [apps_setApp_ne _ ha]
      exact hst
  · intro a'
    by_cases ha : a' = a
    · subst ha
      rw [apps_setApp_self]
      exact hall
    · rw [apps_setApp_ne _ ha]
      exact h.handlers a'

/-- What a mount stores under the prefix. -/
theorem stored_mergeMiddlewares (app : Hono E M F) (pfx p : ByteString) (mws : List M) :
    ((app.mergeMiddlewares pfx mws).routeMiddlewares.get? p).getD []
      = if p = pfx then (app.routeMiddlewares.get? p).getD [] ++ mws
        else (app.routeMiddlewares.get? p).getD [] := by
  rw [Hono.mergeMiddlewares]
  by_cases hpos : 0 < mws.length
  · rw [if_pos hpos]
    cases hget : app.routeMiddlewares.get? pfx with
    | none =>
        simp only [InsertionMap.get?_insert]
        by_cases hp : p = pfx
        · subst hp
          rw [if_pos rfl, if_pos rfl, hget]
          rfl
        · rw [if_neg hp, if_neg hp]
    | some old =>
        simp only [InsertionMap.get?_insert]
        by_cases hp : p = pfx
        · subst hp
          rw [if_pos rfl, if_pos rfl, hget]
          rfl
        · rw [if_neg hp, if_neg hp]
  · rw [if_neg hpos]
    have hnil : mws = [] := List.length_eq_zero_iff.mp (by omega)
    rw [hnil, List.append_nil, ite_self]

theorem OwnerBelow.later {fo fo' : Forest E M F} {a : AppId} {handler : AppId × F}
    (h : fo.OwnerBelow a handler) (hsub : ∀ e ∈ fo.edges, e ∈ fo'.edges) :
    fo'.OwnerBelow a handler :=
  h.imp (fun _ hl => hl.mono hsub)

theorem Built.route {fo : Forest E M F} (h : Built fo) (a : AppId) (pfx : ByteString)
    (b : AppId) : Built (fo.build S (.route a pfx b)) := by
  have hsame := Hono.sameSetup_mergeRoutes S pfx (fo.apps b).handlers
    ((fo.apps a).mergeMiddlewares pfx (fo.apps b).contextMiddlewares)
  have hown : ((fo.apps a).route S pfx (fo.apps b)).contextMiddlewares = fo.own a := by
    refine hsame.own.trans ?_
    rw [Hono.mergeMiddlewares]
    split
    · rfl
    · rfl
  have hsub : ∀ e ∈ fo.edges, e ∈ (fo.build S (.route a pfx b)).edges := by
    intro e he
    rw [edges, build, List.map_append]
    exact List.mem_append_left _ he
  have hnew : (a, b) ∈ (fo.build S (.route a pfx b)).edges := by
    rw [edges, build, List.map_append]
    exact List.mem_append_right _ (List.mem_singleton_self _)
  refine ⟨?_, ?_, ?_, ?_⟩
  -- own middlewares: a mount changes nobody's
  · intro a' x hx
    by_cases ha : a' = a
    · subst ha
      rw [own, apps_build_route, apps_setApp_self, hown] at hx
      exact h.tagged a' x hx
    · rw [own, apps_build_route, apps_setApp_ne _ ha] at hx
      exact h.tagged a' x hx
  -- the copies: the new mount has the middlewares the child has now
  · intro mt hmt x hx
    rcases List.mem_append.mp hmt with hold | hlast
    · exact h.copies mt hold x hx
    · rw [List.mem_singleton.mp hlast] at hx ⊢
      exact h.tagged b x hx
  -- what is stored: the new copies come last under the prefix
  · intro a' p
    have hcopied : (fo.build S (.route a pfx b)).copied a' p
        = if a = a' ∧ pfx = p then fo.copied a' p ++ fo.own b else fo.copied a' p := by
      show ((fo.mounts ++ [_]).filter _).flatMap _ = _
      rw [List.filter_append, List.flatMap_append]
      by_cases hap : a = a' ∧ pfx = p
      · rw [if_pos hap, List.filter_cons_of_pos (by simpa using hap)]
        exact congrArg (fo.copied a' p ++ ·) (List.append_nil (fo.own b))
      · rw [if_neg hap, List.filter_cons_of_neg (by simpa using hap)]
        exact List.append_nil (fo.copied a' p)
    rw [hcopied]
    by_cases ha : a' = a
    · subst ha
      rw [apps_build_route, apps_setApp_self, Hono.route, hsame.mounted,
        stored_mergeMiddlewares, h.stored a' p]
      by_cases hp : p = pfx
      · rw [if_pos hp, if_pos ⟨rfl, hp.symm⟩]
        rfl
      · rw [if_neg hp, if_neg (fun hc => hp hc.2.symm)]
    · rw [apps_build_route, apps_setApp_ne _ ha, if_neg (fun hc => ha hc.1.symm)]
      exact h.stored a' p
  -- the handlers: the child's are now below the parent as well
  · intro a'
    have hlater : ∀ c, (fo.apps c).AllHandlers ((fo.build S (.route a pfx b)).OwnerBelow c) :=
      fun c => (h.handlers c).mono (fun _ hf => hf.later hsub)
    by_cases ha : a' = a
    · subst ha
      rw [apps_build_route, apps_setApp_self]
      refine (hlater a').route S ((hlater b).mono ?_) pfx
      rintro f ⟨l, hl⟩
      exact ⟨b :: l, hl.cons hnew⟩
    · rw [show (fo.build S (.route a pfx b)).apps a' = fo.apps a' from
        Function.update_of_ne ha ..]
      exact hlater a'

/-- **THE STEP LEMMA.**  Every building call keeps the invariant. -/
theorem Built.build {fo : Forest E M F} (h : Built fo) (call : BuildCall M F) :
    Built (fo.build S call) := by
  cases call with
  | useMiddleware a mw =>
      refine h.setApp a ?_ rfl ⟨(h.handlers a).lists, (h.handlers a).fast, (h.handlers a).hybrid⟩
      intro x hx
      rcases List.mem_append.mp hx with hold | hnew
      · exact h.tagged a x hold
      · rw [List.mem_singleton.mp hnew]
  | on a m path handler =>
      obtain ⟨base, hreg⟩ := (fo.apps a).on_eq_register S m path (a, handler)
      have hsame := Hono.sameSetup_register S (fo.apps a) m base path (a, handler)
      rw [Forest.build, hreg]
      refine h.setApp a ?_ hsame.mounted
        ((h.handlers a).register S m base path ⟨[], .root⟩)
      rw [hsame.own]
      exact h.tagged a
  | route a pfx b => exact h.route S a pfx b
  | request a method path now =>
      have hsame := (fo.apps a).sameSetup_matchRequest method path now
      refine h.setApp a ?_ hsame.mounted ((h.handlers a).matchRequest method path now).1
      rw [hsame.own]
      exact h.tagged a

/-- The invariant of a whole build. -/
theorem built_grown (now : Int) (calls : List (BuildCall M F)) :
    Built (grown S now calls : Forest E M F) :=
  have hstep : ∀ (_ : List (BuildCall M F)) (fo : Forest E M F) call, Built fo →
      Built (fo.buildStep S call).1 := fun _ _ call h => h.build S call
  final_inv hstep calls [] _ (built_initial now)

end Forest

end VHono
