import VHono.Dispatch

/-! # The onion of middlewares

    A middleware is any function of a context and of the rest of the onion: it
    may run the rest any number of times, on any contexts, and change the
    context before and after.  Three dispatchers walk over a list of them by
    index, and `combine_middlewares` makes one middleware of a list with a
    fourth walk of the same kind. -/

namespace VHono

variable {C R : Type}

/-- `fn (mut c Context, next fn (mut Context) http.Response) http.Response`, where `C` is the
    context with all else that a middleware may change, and `R` the response with what these
    are afterwards. -/
abbrev ContextMiddleware (C R : Type) := C → (C → R) → R

/-! ## The walks -/

def execContextMiddlewaresWithList (idx : Nat) (middlewares : List (ContextMiddleware C R))
    (ctx : C) (handler : C → R) : R :=
  execMiddlewares (fun mw next c => mw c next) idx middlewares handler ctx

def execMiddlewaresPicoev (idx : Nat) (middlewares : List (ContextMiddleware C R)) (ctx : C)
    (handler : IHandler (C → R)) : R :=
  execMiddlewares (fun mw next c => mw c next) idx middlewares handler.handle ctx

def execMiddlewaresUsockets (idx : Nat) (middlewares : List (ContextMiddleware C R)) (ctx : C)
    (handler : IHandler (C → R)) : R :=
  execMiddlewares (fun mw next c => mw c next) idx middlewares handler.handle ctx

def executeMiddlewareChain (idx : Nat) (middlewares : List (ContextMiddleware C R)) (c : C)
    (finalNext : C → R) : R :=
  if h : idx ≥ middlewares.length then finalNext c
  else middlewares[idx] c (fun ctx => executeMiddlewareChain (idx + 1) middlewares ctx finalNext)
  termination_by middlewares.length - idx

def combineMiddlewares (middlewares : List (ContextMiddleware C R)) : ContextMiddleware C R :=
  fun c next => executeMiddlewareChain 0 middlewares c next

/-! ## The fold -/

/-- Each middleware around the rest of the list, the handler innermost. -/
def onion (middlewares : List (ContextMiddleware C R)) (handler : C → R) : C → R :=
  middlewares.foldr (fun mw next c => mw c next) handler

theorem onion_append (outer inner : List (ContextMiddleware C R)) (handler : C → R) :
    onion (outer ++ inner) handler = onion outer (onion inner handler) := List.foldr_append

/-- The walk from an index on is the onion of the middlewares from there on. -/
theorem executeMiddlewareChain_eq_onion (middlewares : List (ContextMiddleware C R))
    (finalNext : C → R) :
    ∀ (k idx : Nat) (c : C), middlewares.length - idx = k →
      executeMiddlewareChain idx middlewares c finalNext
        = onion (middlewares.drop idx) finalNext c := by
  intro k
  induction k with
  | zero =>
      intro idx c hk
      have hge : middlewares.length ≤ idx := by omega
      rw [executeMiddlewareChain, dif_pos hge, List.drop_eq_nil_of_le hge]
      rfl
  | succ k ih =>
      intro idx c hk
      have hlt : idx < middlewares.length := by omega
      have hrest : (fun ctx => executeMiddlewareChain (idx + 1) middlewares ctx finalNext)
          = onion (middlewares.drop (idx + 1)) finalNext :=
        funext (fun ctx => ih (idx + 1) ctx (by omega))
      rw [executeMiddlewareChain, dif_neg (by omega), hrest, List.drop_eq_getElem_cons hlt]
      rfl

/-- A combined list is one middleware that does what the list does. -/
theorem combineMiddlewares_eq_onion (middlewares : List (ContextMiddleware C R)) (c : C)
    (next : C → R) : combineMiddlewares middlewares c next = onion middlewares next c :=
  executeMiddlewareChain_eq_onion middlewares next _ 0 c rfl

/-- Combining a part of a list leaves its onion as it is. -/
theorem onion_combine (outer middle inner : List (ContextMiddleware C R)) (handler : C → R) :
    onion (outer ++ combineMiddlewares middle :: inner) handler
      = onion (outer ++ middle ++ inner) handler := by
  have hmiddle : onion (combineMiddlewares middle :: inner) handler
      = onion (middle ++ inner) handler := by
    rw [onion_append]
    exact funext (fun c => combineMiddlewares_eq_onion middle c _)
  rw [onion_append, hmiddle, ← onion_append, List.append_assoc]

section Dispatchers

variable (middlewares : List (ContextMiddleware C R)) (ctx : C)

theorem execContextMiddlewaresWithList_eq (handler : C → R) :
    execContextMiddlewaresWithList 0 middlewares ctx handler = onion middlewares handler ctx :=
  congrFun (execMiddlewares_eq_foldr _ middlewares handler _ 0 rfl) ctx

theorem execMiddlewaresPicoev_eq (handler : IHandler (C → R)) :
    execMiddlewaresPicoev 0 middlewares ctx handler = onion middlewares handler.handle ctx :=
  congrFun (execMiddlewares_eq_foldr _ middlewares handler.handle _ 0 rfl) ctx

theorem execMiddlewaresUsockets_eq (handler : IHandler (C → R)) :
    execMiddlewaresUsockets 0 middlewares ctx handler = onion middlewares handler.handle ctx :=
  congrFun (execMiddlewares_eq_foldr _ middlewares handler.handle _ 0 rfl) ctx

end Dispatchers

/-- **THE ONION.**  The walks of the three dispatchers are the fold over the list, and any part
    of the list may be combined into one middleware. -/
theorem onion_laws (ctx : C) (handler : C → R) (route : IHandler (C → R)) :
    (∀ middlewares : List (ContextMiddleware C R),
      execContextMiddlewaresWithList 0 middlewares ctx handler
          = middlewares.foldr (fun mw next c => mw c next) handler ctx ∧
        execMiddlewaresPicoev 0 middlewares ctx route
          = middlewares.foldr (fun mw next c => mw c next) route.handle ctx ∧
        execMiddlewaresUsockets 0 middlewares ctx route
          = middlewares.foldr (fun mw next c => mw c next) route.handle ctx) ∧
    ∀ outer middle inner : List (ContextMiddleware C R),
      execContextMiddlewaresWithList 0 (outer ++ combineMiddlewares middle :: inner) ctx handler
          = execContextMiddlewaresWithList 0 (outer ++ middle ++ inner) ctx handler ∧
        execMiddlewaresPicoev 0 (outer ++ combineMiddlewares middle :: inner) ctx route
          = execMiddlewaresPicoev 0 (outer ++ middle ++ inner) ctx route ∧
        execMiddlewaresUsockets 0 (outer ++ combineMiddlewares middle :: inner) ctx route
          = execMiddlewaresUsockets 0 (outer ++ middle ++ inner) ctx route := by
  constructor
  · intro middlewares
    exact ⟨execContextMiddlewaresWithList_eq middlewares ctx handler,
      execMiddlewaresPicoev_eq middlewares ctx route,
      execMiddlewaresUsockets_eq middlewares ctx route⟩
  · intro outer middle inner
    refine ⟨?_, ?_, ?_⟩
    · rw [execContextMiddlewaresWithList_eq, execContextMiddlewaresWithList_eq, onion_combine]
    · rw [execMiddlewaresPicoev_eq, execMiddlewaresPicoev_eq, onion_combine]
    · rw [execMiddlewaresUsockets_eq, execMiddlewaresUsockets_eq, onion_combine]

end VHono
