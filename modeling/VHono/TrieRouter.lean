import VHono.RouteCaches
import VHono.RoutePatterns
import VHono.MachineRuns
import VHono.PathSegments

/-! # The trie router

    One tree of path segments for each method.  `add_route` follows the
    segments of a pattern and makes the nodes that are missing; `match_route`
    takes at each segment of a path the static child, else the parameter child,
    else the wildcard child, and never turns back.  Nodes hang below one parent
    each, so the tree is a value and an assignment through a node pointer is
    the tree with that node replaced. -/

namespace VHono

open ByteString PathSegments MachineRuns

variable {F : Type}

inductive TrieNodeType where
  | static
  | param
  | wildcard
  deriving DecidableEq

structure ContextTrieNode (F : Type) where
  segment       : ByteString
  nodeType      : TrieNodeType
  paramName     : ByteString
  handler       : Option (IHandler F)
  children      : List (ByteString × ContextTrieNode F)
  paramChild    : Option (ContextTrieNode F)
  wildcardChild : Option (ContextTrieNode F)

namespace ContextTrieNode

def new (segment : ByteString) (nodeType : TrieNodeType) (paramName : ByteString) :
    ContextTrieNode F where
  segment := segment
  nodeType := nodeType
  paramName := paramName
  handler := none
  children := []
  paramChild := none
  wildcardChild := none

/-- `if i == segments.len - 1 { current.handler = handler }` -/
def setIfLast (n : ContextTrieNode F) (segs : List ByteString) (handler : IHandler F) :
    ContextTrieNode F :=
  if segs = [] then { n with handler := some handler } else n

/-- The loop of `add_route` below a node. -/
def addSegments (handler : IHandler F) : List ByteString → ContextTrieNode F → ContextTrieNode F
  | [], current => current
  | seg :: segs, current =>
    if startsWith seg (ascii ":") then
      let child := current.paramChild.getD (new seg .param (seg.drop 1))
      let grown := addSegments handler segs (child.setIfLast segs handler)
      { current with paramChild := some grown }
    else if seg = ascii "*" then
      let child := current.wildcardChild.getD (new seg .wildcard (seg.drop 1))
      let grown := addSegments handler segs (child.setIfLast segs handler)
      { current with wildcardChild := some grown }
    else
      let child := (InsertionMap.getEntry seg current.children).getD (new seg .static [])
      let grown := addSegments handler segs (child.setIfLast segs handler)
      { current with children := InsertionMap.setEntry seg grown current.children }

/-- The loop of `match_route` below a node; a wildcard takes what is left. -/
def descend : List ByteString → ContextTrieNode F → InsertionMap ByteString ByteString →
    Option (ContextTrieNode F × InsertionMap ByteString ByteString)
  | [], current, params => some (current, params)
  | seg :: segs, current, params =>
    match InsertionMap.getEntry seg current.children with
    | some child => descend segs child params
    | none =>
      match current.paramChild with
      | some child => descend segs child (params.insert child.paramName seg)
      | none => current.wildcardChild.map (fun child => (child, params))

end ContextTrieNode

structure ContextTrieRouter (F : Type) where
  methodTrees : InsertionMap ByteString (ContextTrieNode F)
  cache       : ContextLRUCache (ContextRouteMatch F)

/-- `path.split('/').filter(it != '')` -/
def routeSegments (path : ByteString) : List ByteString := (segments path).filter (· ≠ [])

namespace ContextTrieRouter

def new (now : Int) : ContextTrieRouter F where
  methodTrees := .empty
  cache := .new 1000 now

def addRoute (tr : ContextTrieRouter F) (method path : ByteString) (handler : IHandler F) :
    ContextTrieRouter F :=
  let root := (tr.methodTrees.get? method).getD (.new [] .static [])
  let tree := root.addSegments handler (routeSegments path)
  { tr with methodTrees := tr.methodTrees.insert method tree }

/-- `match_route` past the cache. -/
def searchTree (tr : ContextTrieRouter F) (method path : ByteString) :
    Option (ContextRouteMatch F) :=
  match tr.methodTrees.get? method with
  | none => none
  | some root =>
    match root.descend (routeSegments path) .empty with
    | none => none
    | some (current, params) =>
      current.handler.map (fun handler =>
        { handler := handler, params := params, path := [], basePath := [] })

def matchRoute (tr : ContextTrieRouter F) (method path : ByteString) (now : Int) :
    ContextTrieRouter F × Option (ContextRouteMatch F) :=
  let cached := tr.cache.get path now
  let tr := { tr with cache := cached.2 }
  match cached.1 with
  | some result => (tr, some result)
  | none =>
    match tr.searchTree method path with
    | none => (tr, none)
    | some result => ({ tr with cache := tr.cache.put path result now }, some result)

end ContextTrieRouter
end VHono
