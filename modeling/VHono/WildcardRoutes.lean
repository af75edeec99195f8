import VHono.HybridRouter
import VHono.PatternExpressions

/-! # Wildcards

    What `*` and `**` stand for in a path, and what the two routers take them
    for.  The fast router hands the star on to the expression, where it repeats
    what stands before it and stands for nothing itself; so there is no path
    with a star that the fast router reads as meant. -/

namespace VHono

open ByteString PathExpressions

variable {E : RegexEngine} {F : Type}

/-! ## The meaning of a pattern -/

inductive Wild
  | lit (b : UInt8)
  | name
  | run
  | deep
  deriving DecidableEq

/-- The run of a star that no second one followed. -/
def pendingRun (pending : Bool) : List Wild := if pending then [.run] else []

/-- Two stars are taken together; the flag says that one has been read. -/
def wildsFrom : Bool → List PathPiece → List Wild
  | pending, [] => pendingRun pending
  | pending, .param _ :: ps => pendingRun pending ++ .name :: wildsFrom false ps
  | pending, .text b :: ps =>
    if b = byte '*' then
      if pending then .deep :: wildsFrom false ps else wildsFrom true ps
    else pendingRun pending ++ .lit b :: wildsFrom false ps

def wildsOf (ps : List PathPiece) : List Wild := wildsFrom false ps

/-- `*` stands for any run of bytes other than the slash, `**` for any run of bytes, a name for a
    non-empty run without a slash. -/
def Means : List Wild → ByteString → Prop
  | [], s => s = []
  | .lit b :: ws, s => ∃ rest, s = b :: rest ∧ Means ws rest
  | .name :: ws, s => ∃ value rest, s = value ++ rest ∧ (value ≠ [] ∧ byte '/' ∉ value) ∧ Means ws rest
  | .run :: ws, s => ∃ value rest, s = value ++ rest ∧ byte '/' ∉ value ∧ Means ws rest
  | .deep :: ws, s => ∃ value rest, s = value ++ rest ∧ Means ws rest

def PatternMeans (pattern path : ByteString) : Prop := Means (wildsOf (scanParams 0 pattern)) path

/-! ## The routers of one route -/

/-- A fast router that holds just the route, if the route compiles. -/
def fastRouterOf (S : CompareSort) (method : ByteString) (handler : IHandler F) : FastRouter E F :=
  match (FastRouter.new 0 : FastRouter E F).addRoute S method handler [] with
  | .ok r => r
  | .error _ => FastRouter.new 0

def hybridRouterOf (S : CompareSort) (method : ByteString) (handler : IHandler F) :
    ContextHybridRouter E F :=
  (ContextHybridRouter.new 0).addRoute S method handler []

def fastAnswers (E : RegexEngine) (S : CompareSort) (method : ByteString) (handler : IHandler F)
    (path : ByteString) : Bool :=
  ((fastRouterOf S method handler : FastRouter E F).matchRoute method path 0).1.isSome

def hybridAnswers (E : RegexEngine) (S : CompareSort) (method : ByteString) (handler : IHandler F)
    (path : ByteString) : Bool :=
  ((hybridRouterOf S method handler : ContextHybridRouter E F).matchRoute method path 0).1.isSome

/-- Both routers answer a path, or neither does, as the pattern means it. -/
def WildcardAgrees (E : RegexEngine) (S : CompareSort) (method : ByteString) (handler : IHandler F)
    (path : ByteString) : Prop :=
  (fastAnswers E S method handler path = true ↔ hybridAnswers E S method handler path = true) ∧
    (fastAnswers E S method handler path = true ↔ PatternMeans handler.path path)

theorem fastRouterOf_dynamic (S : CompareSort) (method : ByteString) {handler : IHandler F}
    (hstar : byte '*' ∈ handler.path) :
    (fastRouterOf S method handler : FastRouter E F)
      = match (FastRouter.precompileRoute method handler :
          Except ByteString (PrecompiledRoute E F)) with
        | .ok route =>
          { (FastRouter.new 0 : FastRouter E F) with
            precompiledRoutes := (FastRouter.new 0 : FastRouter E F).routesWith S route }
        | .error _ => FastRouter.new 0 := by
  have hdynamic : ¬FastRouter.isStaticFastPath handler.path = true := by
    rw [FastRouter.isStaticFastPath, Bool.and_eq_true, decide_eq_true_eq, decide_eq_true_eq]
    exact fun h => h.2 hstar
  rw [fastRouterOf, FastRouter.addRoute, if_neg hdynamic]
  cases (FastRouter.precompileRoute method handler : Except ByteString (PrecompiledRoute E F)) <;> rfl

/-- A route that does not compile is answered nowhere. -/
theorem fastAnswers_uncompiled (S : CompareSort) (method : ByteString) {handler : IHandler F}
    (hstar : byte '*' ∈ handler.path) (hre : E.regexOpt (paramRegexSource handler.path) = none)
    (path : ByteString) : fastAnswers E S method handler path = false := by
  have hroute : (FastRouter.precompileRoute method handler :
      Except ByteString (PrecompiledRoute E F))
        = .error (ascii "Failed to compile regex: " ++ paramRegexSource handler.path) := by
    rw [FastRouter.precompileRoute, hre]
  rw [fastAnswers, fastRouterOf_dynamic S method hstar, hroute]
  rfl

/-- The fast router answers what the expression of its route reads. -/
theorem fastAnswers_iff (hE : E.ReadsAnchored) (S : CompareSort) (method : ByteString)
    {handler : IHandler F} (hstar : byte '*' ∈ handler.path) (hbackslash : byte '\\' ∉ handler.path)
    {re : E.RE} (hre : E.regexOpt (paramRegexSource handler.path) = some re) (path : ByteString) :
    fastAnswers E S method handler path = true ↔
      ∃ caps, Reads (tokensOf (pathMarks handler.path)) path caps := by
  let route : PrecompiledRoute E F := ⟨method, handler.path, re, paramNames handler.path, handler,
    calculateFastRouteComplexity handler.path⟩
  have hroute : FastRouter.precompileRoute method handler = .ok route := by
    rw [FastRouter.precompileRoute, hre]
  have hroutes : (FastRouter.new 0 : FastRouter E F).routesWith S route = [route] := by
    have hsort : (FastRouter.new 0 : FastRouter E F).routesWith S route
        = S.sortBy (·.complexity) [route] := rfl
    rw [hsort]
    exact List.perm_singleton.mp (S.perm _ _)
  have hserves : route.serves method path = E.matchesString re path := by
    rw [PrecompiledRoute.serves, decide_eq_true rfl, Bool.true_and]
  rw [fastAnswers, fastRouterOf_dynamic S method hstar, hroute]
  dsimp only
  rw [hroutes, ← hE.matches_iff (readAnchored_paramRegexSource hbackslash) hre,
    FastRouter.matchRoute_missed rfl]
  show ((FastRouter.firstServing [route] method path).map (·.result path)).isSome = true ↔ _
  rw [Option.isSome_map, FastRouter.firstServing, List.find?_cons, hserves]
  cases E.matchesString re path with
  | true => exact ⟨fun _ => rfl, fun _ => rfl⟩
  | false => exact iff_of_false Bool.false_ne_true Bool.false_ne_true

end VHono

/-! ## No wildcard as meant

    Where a star repeats what stands before it, that may be left out, and a
    text comes out that is too short for the pattern.  Only a star behind the
    first slash, or at the beginning of the path, needs another text. -/

namespace VHono

open ByteString PathExpressions

def isStarPiece : PathPiece → Bool
  | .text b => b == byte '*'
  | .param _ => false

/-- A shortest text of a piece; a star may stand for nothing. -/
def samplePiece : PathPiece → ByteString
  | .text b => if b = byte '*' then [] else [b]
  | .param _ => [byte 'a']

def sampleText (ps : List PathPiece) : ByteString := ps.flatMap samplePiece

/-- The pieces other than stars. -/
def solid (ps : List PathPiece) : Nat := ps.countP (fun p => !isStarPiece p)

def isSlashPiece : PathPiece → Bool
  | .text b => b == byte '/'
  | .param _ => false

theorem length_samplePiece (p : PathPiece) :
    (samplePiece p).length = if isStarPiece p then 0 else 1 := by
  cases p with
  | param name => rfl
  | text b =>
      rw [samplePiece, isStarPiece]
      by_cases hb : b = byte '*'
      · rw [if_pos hb, hb]
        rfl
      · rw [if_neg hb, beq_eq_false_iff_ne.mpr hb]
        rfl

theorem length_sampleText (ps : List PathPiece) : (sampleText ps).length = solid ps := by
  induction ps with
  | nil => rfl
  | cons p ps ih =>
      rw [sampleText, List.flatMap_cons, List.length_append, length_samplePiece, solid,
        List.countP_cons]
      rw [sampleText, solid] at ih
      rw [ih]
      cases isStarPiece p with
      | true => exact Nat.zero_add _
      | false => exact Nat.add_comm ..

theorem count_samplePiece (p : PathPiece) :
    (samplePiece p).count (byte '/') = if isSlashPiece p then 1 else 0 := by
  cases p with
  | param name => rfl
  | text b =>
      rw [samplePiece, isSlashPiece]
      by_cases hb : b = byte '*'
      · rw [if_pos hb, hb]
        rfl
      · rw [if_neg hb, List.count_singleton]

theorem count_sampleText (ps : List PathPiece) :
    (sampleText ps).count (byte '/') = ps.countP isSlashPiece := by
  induction ps with
  | nil => rfl
  | cons p ps ih =>
      rw [sampleText, List.flatMap_cons, List.count_append, count_samplePiece, List.countP_cons]
      rw [sampleText] at ih
      rw [ih, Nat.add_comm]

/-! ## What a pattern means at least, and at most -/

theorem means_pending {pending : Bool} {ws : List Wild} {s : ByteString}
    (h : Means (pendingRun pending ++ ws) s) :
    ∃ value rest, s = value ++ rest ∧ byte '/' ∉ value ∧ Means ws rest := by
  cases pending with
  | true => exact h
  | false => exact ⟨[], s, rfl, List.not_mem_nil, h⟩

theorem means_pending_of {ws : List Wild} {s : ByteString} (h : Means ws s) (pending : Bool) :
    Means (pendingRun pending ++ ws) s := by
  cases pending with
  | true => exact ⟨[], s, rfl, List.not_mem_nil, h⟩
  | false => exact h

/-- A text has a byte for every piece that is no star. -/
theorem solid_le_of_means {ps : List PathPiece} {pending : Bool} {s : ByteString}
    (h : Means (wildsFrom pending ps) s) : solid ps ≤ s.length := by
  induction ps generalizing pending s with
  | nil => exact Nat.zero_le _
  | cons p ps ih =>
      cases p with
      | param name =>
          obtain ⟨value, rest, rfl, -, hrest⟩ := means_pending h
          obtain ⟨v, t, rfl, hv, ht⟩ := hrest
          have hle := ih ht
          have hpos := List.length_pos_iff.mpr hv.1
          have hsolid : solid (.param name :: ps) = solid ps + 1 := List.countP_cons_of_pos rfl
          rw [hsolid, List.length_append, List.length_append]
          omega
      | text b =>
          rw [wildsFrom] at h
          by_cases hb : b = byte '*'
          · have hsolid : solid (.text b :: ps) = solid ps := by
              rw [hb]
              rfl
            rw [if_pos hb] at h
            rw [hsolid]
            cases pending with
            | false => exact ih h
            | true =>
                obtain ⟨value, rest, rfl, hrest⟩ := h
                have hle := ih hrest
                rw [List.length_append]
                omega
          · rw [if_neg hb] at h
            obtain ⟨value, rest, rfl, -, hrest⟩ := means_pending h
            obtain ⟨t, rfl, ht⟩ := hrest
            have hle := ih ht
            have hnot : (!isStarPiece (.text b)) = true := by
              rw [isStarPiece, beq_eq_false_iff_ne.mpr hb]
              rfl
            have hsolid : solid (.text b :: ps) = solid ps + 1 := List.countP_cons_of_pos hnot
            rw [hsolid, List.length_append, List.length_cons]
            omega

theorem means_sampleText (ps : List PathPiece) (pending : Bool) :
    Means (wildsFrom pending ps) (sampleText ps) := by
  induction ps generalizing pending with
  | nil =>
      have hnil := means_pending_of (show Means [] [] from rfl) pending
      rwa [List.append_nil] at hnil
  | cons p ps ih =>
      cases p with
      | param name =>
          have hname : Means (.name :: wildsFrom false ps) (byte 'a' :: sampleText ps) :=
            ⟨[byte 'a'], sampleText ps, rfl, ⟨by decide, by decide⟩, ih false⟩
          exact means_pending_of hname pending
      | text b =>
          rw [wildsFrom, sampleText, List.flatMap_cons, samplePiece]
          by_cases hb : b = byte '*'
          · rw [if_pos hb, if_pos hb, List.nil_append]
            cases pending with
            | false => exact ih true
            | true => exact ⟨[], _, rfl, ih false⟩
          · rw [if_neg hb, if_neg hb]
            have hlit : Means (.lit b :: wildsFrom false ps) (b :: sampleText ps) :=
              ⟨sampleText ps, rfl, ih false⟩
            exact means_pending_of hlit pending

/-! ## Paths without stars -/

def plainWild : PathPiece → Wild
  | .text b => .lit b
  | .param _ => .name

def pieceItem : PathPiece → Item
  | .text b => .lit b
  | .param name => .group name

theorem wildsFrom_plain {ps : List PathPiece} (h : ∀ p ∈ ps, isStarPiece p = false)
    (pending : Bool) : wildsFrom pending ps = pendingRun pending ++ ps.map plainWild := by
  induction ps generalizing pending with
  | nil => exact (List.append_nil _).symm
  | cons p ps ih =>
      have hrest := ih (fun q hq => h q (List.mem_cons_of_mem _ hq)) false
      cases p with
      | param name =>
          rw [wildsFrom, hrest]
          rfl
      | text b =>
          have hb := beq_eq_false_iff_ne.mp (h (.text b) (List.mem_cons_self ..))
          rw [wildsFrom, if_neg hb, hrest]
          rfl

theorem marks_plain {ps : List PathPiece} (h : ∀ p ∈ ps, isStarPiece p = false) :
    ps.map pieceMark = (ps.map pieceItem).map .item := by
  rw [List.map_map]
  refine List.map_congr_left ?_
  intro p hp
  cases p with
  | param name => rfl
  | text b => exact if_neg (beq_eq_false_iff_ne.mp (h _ hp))

/-- A plain text has the slashes of its pattern. -/
theorem count_of_means_plain {ps : List PathPiece} {s : ByteString}
    (h : Means (ps.map plainWild) s) : s.count (byte '/') = ps.countP isSlashPiece := by
  induction ps generalizing s with
  | nil =>
      obtain rfl : s = [] := h
      rfl
  | cons p ps ih =>
      cases p with
      | param name =>
          obtain ⟨value, rest, rfl, hvalue, hrest⟩ := h
          rw [List.count_append, List.count_eq_zero.mpr hvalue.2, ih hrest, Nat.zero_add]
          rfl
      | text b =>
          obtain ⟨rest, rfl, hrest⟩ := h
          rw [List.count_cons, ih hrest, List.countP_cons]
          rfl

theorem means_of_reads_plain {ps : List PathPiece} {s : ByteString} {caps : Captures}
    (h : Reads ((ps.map pieceItem).map (⟨·, false⟩)) s caps) : Means (ps.map plainWild) s := by
  induction ps generalizing s caps with
  | nil => exact (reads_nil.mp h).1
  | cons p ps ih =>
      cases h with
      | cons haccepts hrest =>
          have htail := ih hrest
          cases p with
          | param name =>
              have hvalue := (Bool.and_eq_true _ _).mp haccepts
              exact ⟨_, _, rfl, ⟨bne_iff_ne.mp hvalue.1, of_decide_eq_true hvalue.2⟩, htail⟩
          | text b =>
              rw [beq_iff_eq.mp haccepts]
              exact ⟨_, rfl, htail⟩

/-! ## Where the stars stand -/

/-- Behind what a star stands, or else all stars stand in front. -/
theorem stars_cases (ps : List PathPiece) :
    (∃ before p after, ps = before ++ p :: .text (byte '*') :: after ∧ isStarPiece p = false) ∨
      ∃ k after, ps = List.replicate k (.text (byte '*')) ++ after ∧
        ∀ p ∈ after, isStarPiece p = false := by
  induction ps with
  | nil => exact .inr ⟨0, [], rfl, nofun⟩
  | cons p ps ih =>
      rcases ih with ⟨before, q, after, rfl, hq⟩ | ⟨k, after, rfl, hafter⟩
      · exact .inl ⟨p :: before, q, after, rfl, hq⟩
      · cases hp : isStarPiece p with
        | true =>
            have hstar : p = .text (byte '*') := by
              cases p with
              | param name => exact Bool.noConfusion hp
              | text b => rw [beq_iff_eq.mp hp]
            exact .inr ⟨k + 1, after, by rw [hstar]; rfl, hafter⟩
        | false =>
            cases k with
            | zero =>
                refine .inr ⟨0, p :: after, rfl, ?_⟩
                intro q hq
                rcases List.mem_cons.mp hq with rfl | hq
                · exact hp
                · exact hafter q hq
            | succ k => exact .inl ⟨[], p, List.replicate k _ ++ after, rfl, hp⟩

/-- What the fast router makes of the pieces. -/
def StarReads (ps : List PathPiece) (s : ByteString) : Prop :=
  ∃ caps, Reads (tokensOf (ps.map pieceMark)) s caps

theorem sampleMarks_pieces (ps : List PathPiece) :
    sampleMarks (ps.map pieceMark) = sampleText ps := by
  rw [sampleMarks, sampleText, List.flatMap_map]
  refine List.flatMap_congr ?_
  intro p _
  cases p with
  | param name => rfl
  | text b =>
      rw [pieceMark, samplePiece]
      by_cases hb : b = byte '*'
      · rw [if_pos hb, if_pos hb]
        rfl
      · rw [if_neg hb, if_neg hb]
        rfl

theorem pieceMark_solid {p : PathPiece} (h : isStarPiece p = false) :
    pieceMark p = .item (pieceItem p) ∧ (pieceItem p).sample = samplePiece p := by
  cases p with
  | param name => exact ⟨rfl, rfl⟩
  | text b =>
      have hb := beq_eq_false_iff_ne.mp h
      exact ⟨if_neg hb, (if_neg hb).symm⟩

/-- What stands before a star is left out. -/
theorem reads_left_out {before : List PathPiece} (after : List PathPiece) {p : PathPiece} (i : Item)
    (starred : Bool) (hp : isStarPiece p = false) {s : ByteString} {caps : Captures}
    (hbefore : Reads (attachStars i starred (before.map pieceMark)) s caps) :
    ∃ caps, Reads (attachStars i starred
      ((before ++ p :: .text (byte '*') :: after).map pieceMark)) (s ++ sampleText after) caps := by
  obtain ⟨caps', hafter⟩ := reads_without (after.map pieceMark) (pieceItem p)
  rw [sampleMarks_pieces] at hafter
  rw [List.map_append, List.map_cons, (pieceMark_solid hp).1, attachStars_append]
  exact ⟨caps ++ caps', reads_append.mpr ⟨_, _, _, _, rfl, rfl, hbefore, hafter⟩⟩

theorem solid_left_out {before after : List PathPiece} {p : PathPiece}
    (hp : isStarPiece p = false) :
    solid (before ++ p :: .text (byte '*') :: after) = solid before + solid after + 1 := by
  have hstar : solid (.text (byte '*') :: after) = solid after := rfl
  have hsolid : solid (p :: .text (byte '*') :: after) = solid after + 1 :=
    (List.countP_cons_of_pos (by rw [hp]; rfl)).trans (congrArg (· + 1) hstar)
  have happend : solid (before ++ p :: .text (byte '*') :: after)
      = solid before + solid (p :: .text (byte '*') :: after) := List.countP_append
  rw [happend, hsolid, Nat.add_assoc]

theorem attachStars_stars (k : Nat) (i : Item) (starred : Bool) (ms : List Mark) :
    attachStars i starred (List.replicate (k + 1) .star ++ ms) = attachStars i true ms := by
  induction k generalizing starred with
  | zero => rfl
  | succ k ih => exact ih true

theorem tokens_stars (k : Nat) {after : List PathPiece} (h : ∀ p ∈ after, isStarPiece p = false)
    (i : Item) (starred : Bool) :
    attachStars i starred ((List.replicate (k + 1) (PathPiece.text (byte '*')) ++ after).map pieceMark)
      = ⟨i, true⟩ :: (after.map pieceItem).map (⟨·, false⟩) := by
  have hstars : (List.replicate (k + 1) (PathPiece.text (byte '*'))).map pieceMark
      = List.replicate (k + 1) .star := List.map_replicate
  rw [List.map_append, hstars, attachStars_stars, marks_plain h, attachStars_items]

theorem sampleText_stars (k : Nat) (after : List PathPiece) :
    sampleText (List.replicate k (PathPiece.text (byte '*')) ++ after) = sampleText after := by
  induction k with
  | zero => rfl
  | succ k ih => exact ih

/-- A starred literal reads repetitions of its byte. -/
theorem reads_starred_lit {b : UInt8} {ts : List Token} {s : ByteString} {caps : Captures}
    (h : Reads (⟨.lit b, true⟩ :: ts) s caps) :
    ∃ k rest caps', s = List.replicate k b ++ rest ∧ Reads ts rest caps' := by
  cases h with
  | @cons _ _ x rest caps' haccepts hrest =>
      refine ⟨x.length, rest, caps', ?_, hrest⟩
      have hall : ∀ c ∈ x, c = b := fun c hc => beq_iff_eq.mp (List.all_eq_true.mp haccepts c hc)
      rw [← List.eq_replicate_of_mem hall]

/-! ## The disagreement -/

/-- A text that is read and not meant, or the other way round; it starts with a slash if the
    pattern does. -/
def Disagrees (ps : List PathPiece) (s : ByteString) : Prop :=
  ¬(StarReads ps s ↔ Means (wildsOf ps) s) ∧
    (ps.head? = some (.text (byte '/')) → s.head? = some (byte '/'))

theorem not_means_of_short {ps : List PathPiece} {s : ByteString} (h : s.length < solid ps) :
    ¬Means (wildsOf ps) s := fun hmeans => by
  have hle := solid_le_of_means hmeans
  omega

theorem reads_plain_sample {ps : List PathPiece} (h : ∀ p ∈ ps, isStarPiece p = false) :
    ∃ caps, Reads ((ps.map pieceItem).map (⟨·, false⟩)) (sampleText ps) caps := by
  induction ps with
  | nil => exact ⟨[], .nil⟩
  | cons p ps ih =>
      obtain ⟨caps, hcaps⟩ := ih (fun q hq => h q (List.mem_cons_of_mem _ hq))
      have haccepts : Token.accepts ⟨pieceItem p, false⟩ (samplePiece p) = true := by
        rw [← (pieceMark_solid (h p (List.mem_cons_self ..))).2]
        exact accepts_sample _ _
      exact ⟨_, .cons haccepts hcaps⟩

/-- A plain rest cannot read a slash too many. -/
theorem count_of_reads_plain {ps : List PathPiece} {s : ByteString} {caps : Captures}
    (h : Reads ((ps.map pieceItem).map (⟨·, false⟩)) s caps) :
    s.count (byte '/') = ps.countP isSlashPiece :=
  count_of_means_plain (means_of_reads_plain h)

/-- One star behind the first slash: the slash may be doubled, but no run holds a slash. -/
theorem disagrees_slash_star {after : List PathPiece} (h : ∀ p ∈ after, isStarPiece p = false) :
    Disagrees (.text (byte '/') :: .text (byte '*') :: after)
      (byte '/' :: byte '/' :: sampleText after) := by
  refine ⟨fun hiff => ?_, fun _ => rfl⟩
  have hreads : StarReads (.text (byte '/') :: .text (byte '*') :: after)
      (byte '/' :: byte '/' :: sampleText after) := by
    have hslash : Token.accepts ⟨.lit (byte '/'), true⟩ [byte '/', byte '/'] = true := by decide
    obtain ⟨caps, hcaps⟩ := reads_plain_sample h
    have hall := Reads.cons hslash hcaps
    have htokens : tokensOf ((PathPiece.text (byte '/') :: .text (byte '*') :: after).map pieceMark)
        = ⟨.lit (byte '/'), true⟩ :: (after.map pieceItem).map (⟨·, false⟩) :=
      tokens_stars 0 h (.lit (byte '/')) false
    rw [StarReads, htokens]
    exact ⟨_, hall⟩
  have hmeans := hiff.mp hreads
  have hwilds : wildsOf (.text (byte '/') :: .text (byte '*') :: after)
      = .lit (byte '/') :: .run :: after.map plainWild :=
    congrArg (Wild.lit (byte '/') :: ·) (wildsFrom_plain h true)
  rw [hwilds] at hmeans
  obtain ⟨_, hcons, value, rest, rfl, hvalue, hrest⟩ := hmeans
  have hcount := congrArg (List.count (byte '/')) (List.cons.inj hcons).2
  rw [List.count_cons_self, count_sampleText, List.count_append, List.count_eq_zero.mpr hvalue,
    count_of_means_plain hrest] at hcount
  omega

/-- More stars behind the first slash: they stand for slashes, which the expression has no more
    of than it can double. -/
theorem disagrees_slash_stars (k : Nat) {after : List PathPiece}
    (h : ∀ p ∈ after, isStarPiece p = false) :
    Disagrees (.text (byte '/') :: (List.replicate (k + 2) (.text (byte '*')) ++ after))
      (byte '/' :: byte 'a' :: byte '/' :: sampleText after) := by
  refine ⟨fun hiff => ?_, fun _ => rfl⟩
  have hmeans : Means (wildsOf (.text (byte '/') ::
      (List.replicate (k + 2) (.text (byte '*')) ++ after)))
      (byte '/' :: byte 'a' :: byte '/' :: sampleText after) := by
    have hrest := means_sampleText (List.replicate k (.text (byte '*')) ++ after) false
    rw [sampleText_stars] at hrest
    exact ⟨_, rfl, [byte 'a', byte '/'], _, rfl, hrest⟩
  obtain ⟨caps, hcaps⟩ := hiff.mpr hmeans
  have htokens := tokens_stars (k + 1) h (.lit (byte '/')) false
  have hreads : Reads (⟨.lit (byte '/'), true⟩ :: (after.map pieceItem).map (⟨·, false⟩))
      (byte '/' :: byte 'a' :: byte '/' :: sampleText after) caps := htokens ▸ hcaps
  obtain ⟨n, rest, caps', hsplit, hrest⟩ := reads_starred_lit hreads
  have hcount := count_of_reads_plain hrest
  match n with
  | 0 =>
      rw [← show byte '/' :: byte 'a' :: byte '/' :: sampleText after = rest from hsplit,
        List.count_cons_self, List.count_cons_of_ne (by decide), List.count_cons_self,
        count_sampleText] at hcount
      omega
  | 1 =>
      have htail : byte 'a' :: byte '/' :: sampleText after = rest := (List.cons.inj hsplit).2
      rw [← htail, List.count_cons_of_ne (by decide), List.count_cons_self,
        count_sampleText] at hcount
      omega
  | n + 2 =>
      have hsecond : byte 'a' = byte '/' := (List.cons.inj (List.cons.inj hsplit).2).1
      exact absurd hsecond (by decide)

/-- Something that is left out behind the first piece. -/
theorem disagrees_left_out {first p : PathPiece} {before after : List PathPiece}
    (hfirst : isStarPiece first = false) (hp : isStarPiece p = false) :
    Disagrees (first :: (before ++ p :: .text (byte '*') :: after))
      (samplePiece first ++ sampleText before ++ sampleText after) := by
  refine ⟨fun hiff => ?_, ?_⟩
  · obtain ⟨hmark, hsample⟩ := pieceMark_solid hfirst
    obtain ⟨caps, hbefore⟩ := reads_sample (before.map pieceMark) (pieceItem first) false
    rw [sampleMarks_pieces, hsample] at hbefore
    obtain ⟨caps', hreads⟩ := reads_left_out after (pieceItem first) false hp hbefore
    have hall : StarReads (first :: (before ++ p :: .text (byte '*') :: after))
        (samplePiece first ++ sampleText before ++ sampleText after) := by
      refine ⟨caps', ?_⟩
      rw [List.map_cons, hmark]
      exact hreads
    refine not_means_of_short ?_ (hiff.mp hall)
    have hsolid : solid (first :: (before ++ p :: .text (byte '*') :: after))
        = solid (before ++ p :: .text (byte '*') :: after) + 1 :=
      List.countP_cons_of_pos (by rw [hfirst]; rfl)
    rw [hsolid, solid_left_out hp, List.length_append, List.length_append, length_samplePiece,
      hfirst, length_sampleText, length_sampleText]
    show 1 + _ + _ < _
    omega
  · intro hslash
    rw [Option.some.inj hslash]
    rfl

/-- The first piece is left out. -/
theorem disagrees_first_left_out (k : Nat) {first : PathPiece} {after : List PathPiece}
    (hfirst : isStarPiece first = false) (hslash : first ≠ .text (byte '/'))
    (h : ∀ p ∈ after, isStarPiece p = false) :
    Disagrees (first :: (List.replicate (k + 1) (.text (byte '*')) ++ after)) (sampleText after) := by
  refine ⟨fun hiff => ?_, fun hhead => absurd (Option.some.inj hhead) hslash⟩
  have hempty : Token.accepts ⟨pieceItem first, true⟩ [] = true := by
    cases first <;> rfl
  obtain ⟨caps, hcaps⟩ := reads_plain_sample h
  have hall := Reads.cons hempty hcaps
  have hreads : StarReads (first :: (List.replicate (k + 1) (.text (byte '*')) ++ after))
      (sampleText after) := by
    have htokens : tokensOf
        ((first :: (List.replicate (k + 1) (.text (byte '*')) ++ after)).map pieceMark)
        = ⟨pieceItem first, true⟩ :: (after.map pieceItem).map (⟨·, false⟩) := by
      rw [List.map_cons, (pieceMark_solid hfirst).1]
      exact tokens_stars k h (pieceItem first) false
    rw [StarReads, htokens]
    exact ⟨_, hall⟩
  refine not_means_of_short ?_ (hiff.mp hreads)
  have hsolid : solid (first :: (List.replicate (k + 1) (.text (byte '*')) ++ after))
      = solid (List.replicate (k + 1) (.text (byte '*')) ++ after) + 1 :=
    List.countP_cons_of_pos (by rw [hfirst]; rfl)
  rw [hsolid, ← length_sampleText (List.replicate (k + 1) _ ++ after), sampleText_stars]
  exact Nat.lt_succ_self _

/-- A single star in front stands for itself. -/
theorem disagrees_star_first {after : List PathPiece}
    (h : ∀ p, after.head? = some p → isStarPiece p = false) :
    Disagrees (.text (byte '*') :: after) (sampleText after) := by
  refine ⟨fun hiff => ?_, fun hhead => absurd (Option.some.inj hhead) (by simp; decide)⟩
  have hmeans : Means (wildsOf (.text (byte '*') :: after)) (sampleText after) :=
    means_sampleText after true
  obtain ⟨caps, hcaps⟩ := hiff.mpr hmeans
  have htokens : ∃ ts, tokensOf ((PathPiece.text (byte '*') :: after).map pieceMark)
      = ⟨.lit (byte '*'), false⟩ :: ts := by
    cases after with
    | nil => exact ⟨[], rfl⟩
    | cons p after =>
        refine ⟨attachStars (pieceItem p) false (after.map pieceMark), ?_⟩
        show attachStars (.lit (byte '*')) false (pieceMark p :: after.map pieceMark) = _
        rw [(pieceMark_solid (h p rfl)).1]
        rfl
  obtain ⟨ts, hts⟩ := htokens
  rw [hts] at hcaps
  obtain ⟨a, b, c, d, hsplit, -, ha, -⟩ := (@reads_append [⟨.lit (byte '*'), false⟩] _ _ _).mp hcaps
  obtain rfl : a = [byte '*'] := ((@reads_lits [byte '*'] _ _).mp ha).1
  cases after with
  | nil => cases hsplit
  | cons p after =>
      have hp := h p rfl
      cases p with
      | param name => exact absurd (List.cons.inj hsplit).1 (by decide)
      | text b' =>
          have hb := beq_eq_false_iff_ne.mp hp
          rw [sampleText, List.flatMap_cons, samplePiece, if_neg hb] at hsplit
          exact hb (List.cons.inj hsplit).1

/-- Two stars in front stand for stars only. -/
theorem disagrees_stars_first (k : Nat) {after : List PathPiece}
    (h : ∀ p ∈ after, isStarPiece p = false) :
    Disagrees (.text (byte '*') :: (List.replicate (k + 1) (.text (byte '*')) ++ after))
      (byte '/' :: sampleText after) := by
  refine ⟨fun hiff => ?_, fun hhead => absurd (Option.some.inj hhead) (by simp; decide)⟩
  have hmeans : Means (wildsOf (.text (byte '*') ::
      (List.replicate (k + 1) (.text (byte '*')) ++ after))) (byte '/' :: sampleText after) := by
    have hrest := means_sampleText (List.replicate k (.text (byte '*')) ++ after) false
    rw [sampleText_stars] at hrest
    exact ⟨[byte '/'], _, rfl, hrest⟩
  obtain ⟨caps, hcaps⟩ := hiff.mpr hmeans
  have hreads : Reads (⟨.lit (byte '*'), true⟩ :: (after.map pieceItem).map (⟨·, false⟩))
      (byte '/' :: sampleText after) caps := tokens_stars k h (.lit (byte '*')) false ▸ hcaps
  obtain ⟨n, rest, caps', hsplit, hrest⟩ := reads_starred_lit hreads
  have hcount := count_of_reads_plain hrest
  cases n with
  | zero =>
      rw [← show byte '/' :: sampleText after = rest from hsplit, List.count_cons_self,
        count_sampleText] at hcount
      omega
  | succ n => exact absurd (List.cons.inj hsplit).1 (by decide)

/-- Stars in front, and something left out further on. -/
theorem disagrees_stars_left_out {p : PathPiece} {before after : List PathPiece}
    (hp : isStarPiece p = false) :
    Disagrees (.text (byte '*') :: .text (byte '*') ::
        (before ++ p :: .text (byte '*') :: after))
      (sampleText before ++ sampleText after) := by
  refine ⟨fun hiff => ?_, fun hhead => absurd (Option.some.inj hhead) (by simp; decide)⟩
  obtain ⟨caps, hbefore⟩ := reads_without (before.map pieceMark) (.lit (byte '*'))
  rw [sampleMarks_pieces] at hbefore
  obtain ⟨caps', hreads⟩ := reads_left_out after (.lit (byte '*')) true hp hbefore
  have hall : StarReads (.text (byte '*') :: .text (byte '*') ::
      (before ++ p :: .text (byte '*') :: after)) (sampleText before ++ sampleText after) :=
    ⟨caps', hreads⟩
  refine not_means_of_short ?_ (hiff.mp hall)
  have hsolid : solid (.text (byte '*') :: .text (byte '*') ::
      (before ++ p :: .text (byte '*') :: after))
      = solid (before ++ p :: .text (byte '*') :: after) := rfl
  rw [hsolid, solid_left_out hp, List.length_append, length_sampleText, length_sampleText]
  omega

/-- **THE WILDCARDS.**  Whatever the pattern, a star in it makes the expression read a text that is
    not meant, or miss one that is. -/
theorem exists_disagreement {ps : List PathPiece} (h : .text (byte '*') ∈ ps) :
    ∃ s, Disagrees ps s := by
  cases ps with
  | nil => cases h
  | cons first rest =>
      cases hfirst : isStarPiece first with
      | false =>
          rcases stars_cases rest with ⟨before, p, after, rfl, hp⟩ | ⟨k, after, rfl, hafter⟩
          · exact ⟨_, disagrees_left_out hfirst hp⟩
          · cases k with
            | zero =>
                exfalso
                have hplain : ∀ p ∈ first :: after, isStarPiece p = false := by
                  intro p hp
                  rcases List.mem_cons.mp hp with rfl | hp
                  · exact hfirst
                  · exact hafter p hp
                exact absurd (hplain _ h) (by decide)
            | succ k =>
                by_cases hslash : first = .text (byte '/')
                · rw [hslash]
                  cases k with
                  | zero => exact ⟨_, disagrees_slash_star hafter⟩
                  | succ k => exact ⟨_, disagrees_slash_stars k hafter⟩
                · exact ⟨_, disagrees_first_left_out k hfirst hslash hafter⟩
      | true =>
          have hstar : first = .text (byte '*') := by
            cases first with
            | param name => exact Bool.noConfusion hfirst
            | text b => rw [beq_iff_eq.mp hfirst]
          rw [hstar]
          by_cases hsecond : ∀ p, rest.head? = some p → isStarPiece p = false
          · exact ⟨_, disagrees_star_first hsecond⟩
          · cases rest with
            | nil => exact absurd nofun hsecond
            | cons second rest =>
                have hsecond' : second = .text (byte '*') := by
                  cases second with
                  | param name =>
                      exact absurd (fun p hp => Option.some.inj hp ▸ rfl) hsecond
                  | text b =>
                      by_contra hne
                      refine hsecond (fun p hp => ?_)
                      rw [← Option.some.inj hp]
                      exact beq_eq_false_iff_ne.mpr (fun hb => hne (by rw [hb]))
                rw [hsecond']
                rcases stars_cases rest with ⟨before, p, after, rfl, hp⟩ | ⟨k, after, rfl, hafter⟩
                · exact ⟨_, disagrees_stars_left_out hp⟩
                · exact ⟨_, disagrees_stars_first k hafter⟩

/-! ## The routers -/

theorem star_mem_scanParams {path : ByteString} (h : byte '*' ∈ path) :
    .text (byte '*') ∈ scanParams 0 path := by
  induction hlen : path.length using Nat.strong_induction_on generalizing path with
  | _ n ih =>
      cases path with
      | nil => cases h
      | cons b s =>
          have hs : s.length < n := by rw [← hlen]; exact Nat.lt_succ_self _
          by_cases hparam : b = byte ':' ∧ identifier s ≠ []
          · obtain ⟨rfl, hname⟩ := hparam
            have hrest : byte '*' ∈ s := (List.mem_cons.mp h).resolve_left (by decide)
            obtain ⟨name, rest, hidentifier, rfl, hpart⟩ := identifier_prefix s
            rw [scanParams_param hname, hidentifier, List.drop_left]
            rcases List.mem_append.mp hrest with hin | hin
            · exact absurd (hpart _ hin) (by decide)
            · rw [List.length_append] at hs
              exact List.mem_cons_of_mem _ (ih rest.length (by omega) hin rfl)
          · rw [scanParams_text hparam]
            rcases List.mem_cons.mp h with rfl | hin
            · exact List.mem_cons_self ..
            · exact List.mem_cons_of_mem _ (ih s.length hs hin rfl)

theorem scanParams_slash {path : ByteString} (h : path.head? = some (byte '/')) :
    (scanParams 0 path).head? = some (.text (byte '/')) := by
  obtain ⟨s, rfl⟩ := List.head?_eq_some_iff.mp h
  rw [scanParams_text (fun hparam => absurd hparam.1 (by decide))]
  rfl

variable {E : RegexEngine} {F : Type}

/-- **NEVER AS MEANT.**  For every route with a star there is a path, one from the root if the
    route is, at which the routers do not both answer as the pattern means. -/
theorem wildcard_disagrees (hE : E.ReadsAnchored) (S : CompareSort) (method : ByteString)
    {handler : IHandler F} (hstar : byte '*' ∈ handler.path) (hbackslash : byte '\\' ∉ handler.path) :
    ∃ path, ¬WildcardAgrees E S method handler path ∧
      (handler.path.head? = some (byte '/') → path.head? = some (byte '/')) := by
  cases hre : E.regexOpt (paramRegexSource handler.path) with
  | some re =>
      obtain ⟨path, hdisagrees, hslash⟩ := exists_disagreement (star_mem_scanParams hstar)
      refine ⟨path, fun hagrees => hdisagrees ?_, fun hhead => hslash (scanParams_slash hhead)⟩
      exact (fastAnswers_iff hE S method hstar hbackslash hre path).symm.trans hagrees.2
  | none =>
      -- not compiled, the route is not there, and the pattern means something
      refine ⟨sampleText (scanParams 0 handler.path), fun hagrees => ?_, fun hhead => ?_⟩
      · have hanswer := hagrees.2.mpr (means_sampleText (scanParams 0 handler.path) false)
        rw [fastAnswers_uncompiled S method hstar hre] at hanswer
        exact Bool.noConfusion hanswer
      · obtain ⟨rest, hrest⟩ := List.head?_eq_some_iff.mp (scanParams_slash hhead)
        rw [hrest]
        rfl

/-- The route `/files/*`. -/
def filesRoute : IHandler Nat := { path := ascii "/files/*", handle := 0 }

theorem wildcard_disagrees_files :
    ∃ path, ¬WildcardAgrees pathEngine .insertion (ascii "GET") filesRoute path ∧
      (filesRoute.path.head? = some (byte '/') → path.head? = some (byte '/')) :=
  wildcard_disagrees pathEngine_readsAnchored .insertion (ascii "GET") (by decide) (by decide)

/-- `/files/*` means `/files/a.txt`; the hybrid router answers it, the fast router does not. -/
theorem files_split :
    PatternMeans filesRoute.path (ascii "/files/a.txt") ∧
      hybridAnswers pathEngine .insertion (ascii "GET") filesRoute (ascii "/files/a.txt") = true ∧
      fastAnswers pathEngine .insertion (ascii "GET") filesRoute (ascii "/files/a.txt") = false ∧
      ¬WildcardAgrees pathEngine .insertion (ascii "GET") filesRoute (ascii "/files/a.txt") := by
  have hmeans : PatternMeans filesRoute.path (ascii "/files/a.txt") :=
    ⟨_, rfl, _, rfl, _, rfl, _, rfl, _, rfl, _, rfl, _, rfl, ascii "a.txt", [], rfl, by decide, rfl⟩
  have hhybrid : hybridAnswers pathEngine .insertion (ascii "GET") filesRoute
      (ascii "/files/a.txt") = true := by decide +kernel
  have hfast : fastAnswers pathEngine .insertion (ascii "GET") filesRoute
      (ascii "/files/a.txt") = false := by decide +kernel
  refine ⟨hmeans, hhybrid, hfast, fun hagrees => ?_⟩
  exact absurd (hagrees.1.mpr hhybrid) (Bool.eq_false_iff.mp hfast)

end VHono
