import VHono.PathExpressions
import VHono.RoutePatterns

/-! # The expression of a route path

    Escaping and naming the parameters of a path commute: the anchored
    expression of a path without a backslash reads, byte by byte and parameter
    by parameter, as the path does.  Only a star changes its meaning, from a
    placeholder to a repetition. -/

namespace VHono

open ByteString PathExpressions

/-- The library compiles anchored expressions of literals and groups, reads those with stars that
    it compiles as written, and gives the text of a group where there is one way to read. -/
structure RegexEngine.ReadsAnchored (E : RegexEngine) : Prop where
  compiles {source : ByteString} {ts : List Token} :
    readAnchored source = some ts → byte '*' ∉ source → ∃ re, E.regexOpt source = some re
  matches_iff {source : ByteString} {ts : List Token} {re : E.RE} :
    readAnchored source = some ts → E.regexOpt source = some re →
      ∀ s, E.matchesString re s = true ↔ ∃ caps, Reads ts s caps
  groups {source s name value : ByteString} {ts : List Token} {re : E.RE} {caps : Captures} :
    readAnchored source = some ts → E.regexOpt source = some re → Reads ts s caps →
      (∀ caps', Reads ts s caps' → caps' = caps) → (caps.map Prod.fst).Nodup →
      (name, value) ∈ caps → E.getGroupByName re s name = value

/-- An engine for path expressions; without the anchors a beginning of the text is enough. -/
def pathEngine : RegexEngine where
  RE := List Token × Bool
  regexOpt source :=
    match readAnchored source with
    | some ts => some (ts, true)
    | none => (readMarks 0 source).map (fun ms => (tokensOf ms, false))
  matchesString re s :=
    if re.2 then !(allReads re.1 s).isEmpty else s.inits.any (fun t => !(allReads re.1 t).isEmpty)
  getGroupByName re s name := ((allReads re.1 s).head?.bind (·.lookup name)).getD []

theorem allReads_isEmpty (ts : List Token) (s : ByteString) :
    (!(allReads ts s).isEmpty) = true ↔ ∃ caps, Reads ts s caps := by
  rw [Bool.not_eq_true', List.isEmpty_eq_false_iff_exists_mem]
  exact exists_congr (fun _ => mem_allReads)

theorem lookup_of_nodup {caps : Captures} {name value : ByteString}
    (hnodup : (caps.map Prod.fst).Nodup) (h : (name, value) ∈ caps) :
    caps.lookup name = some value := by
  induction caps with
  | nil => cases h
  | cons cap caps ih =>
      obtain ⟨hnot, hnodup⟩ := List.nodup_cons.mp hnodup
      rcases List.mem_cons.mp h with rfl | h
      · exact List.lookup_cons_self
      · have hne : name ≠ cap.1 := fun heq => hnot (heq ▸ List.mem_map_of_mem h)
        rw [List.lookup_cons, beq_eq_false_iff_ne.mpr hne]
        exact ih hnodup h

theorem pathEngine_readsAnchored : pathEngine.ReadsAnchored where
  compiles {source ts} h _ := ⟨(ts, true), by simp only [pathEngine, h]⟩
  matches_iff {source ts re} h hre s := by
    have hregex : (ts, true) = re := by
      simp only [pathEngine, h] at hre
      exact Option.some.inj hre
    rw [← hregex]
    exact allReads_isEmpty ts s
  groups {source s name value ts re caps} h hre hreads hunique hnodup hmem := by
    have hregex : (ts, true) = re := by
      simp only [pathEngine, h] at hre
      exact Option.some.inj hre
    have hhead : (allReads ts s).head? = some caps := by
      cases hall : allReads ts s with
      | nil => exact absurd (mem_allReads.mpr hreads) (by rw [hall]; exact List.not_mem_nil)
      | cons first rest =>
          have hfirst := hunique first (mem_allReads.mp (hall ▸ List.mem_cons_self ..))
          rw [hfirst]
          rfl
    rw [← hregex]
    show ((allReads ts s).head?.bind (·.lookup name)).getD [] = value
    rw [hhead, Option.bind_some, lookup_of_nodup hnodup hmem, Option.getD_some]

/-! ## Escaping -/

/-- A byte of a path in its expression. -/
def escapedByte (b : UInt8) : ByteString := if b ∈ specialChars then [byte '\\', b] else [b]

theorem foldl_escapeByte (path : ByteString) : ∀ {chars : List UInt8}, chars.Nodup →
    byte '\\' ∉ chars → chars.foldl escapeByte path
      = path.flatMap (fun b => if b ∈ chars then [byte '\\', b] else [b]) := by
  intro chars
  induction chars generalizing path with
  | nil => intro _ _; exact (List.flatMap_singleton' path).symm
  | cons c chars ih =>
      intro hnodup hbackslash
      obtain ⟨hc, hnodup⟩ := List.nodup_cons.mp hnodup
      obtain ⟨-, hrest⟩ := not_or.mp (fun h => hbackslash (List.mem_cons.mpr h))
      rw [List.foldl_cons, ih (escapeByte path c) hnodup hrest, escapeByte, List.flatMap_assoc]
      refine List.flatMap_congr ?_
      intro b _
      by_cases hb : b = c
      · rw [if_pos hb, hb, if_pos (List.mem_cons_self ..), List.flatMap_cons, if_neg hrest,
          List.flatMap_singleton, if_neg hc]
        rfl
      · rw [if_neg hb, List.flatMap_singleton]
        have hiff : b ∈ c :: chars ↔ b ∈ chars := by rw [List.mem_cons, or_iff_right hb]
        simp only [hiff]

theorem escapeSpecialChars_eq (path : ByteString) :
    escapeSpecialChars path = path.flatMap escapedByte :=
  foldl_escapeByte path (by decide) (by decide)

/-! ## Naming the parameters -/

theorem scanParams_skip (k : Nat) (s : ByteString) : scanParams k s = scanParams 0 (s.drop k) := by
  induction k generalizing s with
  | zero => rfl
  | succ k ih =>
      cases s with
      | nil => rfl
      | cons b s => exact ih s

theorem isParamPart_special {b : UInt8} (h : b ∈ specialChars) : isParamPart b = false := by
  have hall : ∀ c ∈ specialChars, isParamPart c = false := by decide +kernel
  exact hall b h

theorem escapedByte_param {b : UInt8} (h : isParamPart b = true) : escapedByte b = [b] := by
  refine if_neg (fun hmem => ?_)
  rw [isParamPart_special hmem] at h
  exact Bool.noConfusion h

theorem takeWhile_escaped (s : ByteString) :
    (s.flatMap escapedByte).takeWhile isParamPart = s.takeWhile isParamPart := by
  induction s with
  | nil => rfl
  | cons b s ih =>
      rw [List.flatMap_cons]
      by_cases hb : b ∈ specialChars
      · rw [escapedByte, if_pos hb, List.takeWhile_cons_of_neg (by rw [isParamPart_special hb]; decide)]
        rfl
      · rw [escapedByte, if_neg hb, List.singleton_append, List.takeWhile_cons, List.takeWhile_cons, ih]

theorem head_escaped (s : ByteString) :
    (((s.flatMap escapedByte).head?.map isParamStart).getD false)
      = ((s.head?.map isParamStart).getD false) := by
  cases s with
  | nil => rfl
  | cons b s =>
      rw [List.flatMap_cons]
      by_cases hb : b ∈ specialChars
      · have hstart : ∀ c ∈ specialChars, isParamStart c = false := by decide +kernel
        rw [escapedByte, if_pos hb]
        show isParamStart (byte '\\') = isParamStart b
        rw [hstart b hb]
        rfl
      · rw [escapedByte, if_neg hb]
        rfl

theorem identifier_escaped (s : ByteString) : identifier (s.flatMap escapedByte) = identifier s := by
  rw [identifier, identifier, head_escaped, takeWhile_escaped]

theorem identifier_prefix (s : ByteString) :
    ∃ name rest, identifier s = name ∧ s = name ++ rest ∧ ∀ b ∈ name, isParamPart b = true := by
  rw [identifier]
  split
  · exact ⟨_, _, rfl, (List.takeWhile_append_dropWhile).symm, List.all_eq_true.mp List.all_takeWhile⟩
  · exact ⟨[], s, rfl, rfl, nofun⟩

theorem flatMap_escapedByte_param {name : ByteString} (h : ∀ b ∈ name, isParamPart b = true) :
    name.flatMap escapedByte = name := by
  induction name with
  | nil => rfl
  | cons b name ih =>
      rw [List.flatMap_cons, escapedByte_param (h b (List.mem_cons_self ..)),
        ih (fun c hc => h c (List.mem_cons_of_mem _ hc))]
      rfl

/-- A piece of a path as pieces of the escaped path. -/
def escapedPieces : PathPiece → List PathPiece
  | .text b => (escapedByte b).map .text
  | .param name => [.param name]

theorem scanParams_text {b : UInt8} {s : ByteString} (h : ¬(b = byte ':' ∧ identifier s ≠ [])) :
    scanParams 0 (b :: s) = .text b :: scanParams 0 s := by
  rw [scanParams, if_neg h]

theorem scanParams_param {s : ByteString} (h : identifier s ≠ []) :
    scanParams 0 (byte ':' :: s)
      = .param (identifier s) :: scanParams 0 (s.drop (identifier s).length) := by
  rw [scanParams, if_pos ⟨rfl, h⟩, scanParams_skip]

/-- The parameters of an escaped path are those of the path. -/
theorem scanParams_escaped (path : ByteString) :
    scanParams 0 (path.flatMap escapedByte) = (scanParams 0 path).flatMap escapedPieces := by
  induction hlen : path.length using Nat.strong_induction_on generalizing path with
  | _ n ih =>
      cases path with
      | nil => rfl
      | cons b s =>
          have hs : s.length < n := by rw [← hlen]; exact Nat.lt_succ_self _
          by_cases hparam : b = byte ':' ∧ identifier s ≠ []
          · obtain ⟨rfl, hname⟩ := hparam
            obtain ⟨name, rest, hidentifier, rfl, hpart⟩ := identifier_prefix s
            have hescaped : (name ++ rest).flatMap escapedByte = name ++ rest.flatMap escapedByte := by
              rw [List.flatMap_append, flatMap_escapedByte_param hpart]
            have hscan := scanParams_param hname
            have hlt : rest.length < n := by
              rw [List.length_append] at hs
              omega
            have hscan' : scanParams 0 (byte ':' :: (name ++ rest).flatMap escapedByte)
                = .param name :: scanParams 0 (rest.flatMap escapedByte) := by
              rw [scanParams_param (by rw [identifier_escaped]; exact hname), identifier_escaped,
                hidentifier, hescaped, List.drop_left]
            rw [hidentifier, List.drop_left] at hscan
            rw [hscan, List.flatMap_cons, List.flatMap_cons, ← ih _ hlt rest rfl]
            exact hscan'
          · rw [scanParams_text hparam, List.flatMap_cons, List.flatMap_cons, ← ih _ hs s rfl]
            by_cases hb : b ∈ specialChars
            · have hcolon : b ≠ byte ':' := fun heq => absurd (heq ▸ hb) (by decide)
              rw [escapedPieces, escapedByte, if_pos hb]
              show scanParams 0 (byte '\\' :: b :: s.flatMap escapedByte) = _
              rw [scanParams_text (fun h => absurd h.1 (by decide)),
                scanParams_text (fun h => hcolon h.1)]
              rfl
            · rw [escapedPieces, escapedByte, if_neg hb]
              show scanParams 0 (b :: s.flatMap escapedByte) = _
              rw [scanParams_text (by rw [identifier_escaped]; exact hparam)]
              rfl

theorem mem_scanParams {path : ByteString} {piece : PathPiece} (h : piece ∈ scanParams 0 path) :
    (∃ b ∈ path, piece = .text b) ∨
      ∃ name, piece = .param name ∧ ∀ b ∈ name, isParamPart b = true := by
  induction hlen : path.length using Nat.strong_induction_on generalizing path with
  | _ n ih =>
      cases path with
      | nil => cases h
      | cons b s =>
          have hrest : ∀ k, piece ∈ scanParams 0 (s.drop k) →
              (∃ c ∈ b :: s, piece = .text c) ∨
                ∃ name, piece = .param name ∧ ∀ c ∈ name, isParamPart c = true := by
            intro k hmem
            have hlt : (s.drop k).length < n := by
              rw [← hlen, List.length_drop, List.length_cons]
              omega
            rcases ih _ hlt hmem rfl with ⟨c, hc, rfl⟩ | hname
            · exact .inl ⟨c, List.mem_cons_of_mem _ (List.mem_of_mem_drop hc), rfl⟩
            · exact .inr hname
          by_cases hparam : b = byte ':' ∧ identifier s ≠ []
          · obtain ⟨rfl, hname⟩ := hparam
            rw [scanParams_param hname] at h
            rcases List.mem_cons.mp h with rfl | h
            · obtain ⟨name, rest, hidentifier, -, hpart⟩ := identifier_prefix s
              exact .inr ⟨_, rfl, hidentifier ▸ hpart⟩
            · exact hrest _ h
          · rw [scanParams_text hparam] at h
            rcases List.mem_cons.mp h with rfl | h
            · exact .inl ⟨b, List.mem_cons_self .., rfl⟩
            · exact hrest 0 h

/-! ## The expression read -/

/-- What a piece of a path becomes in its expression. -/
def pieceMark : PathPiece → Mark
  | .text b => if b = byte '*' then .star else .item (.lit b)
  | .param name => .item (.group name)

def pathMarks (path : ByteString) : List Mark := (scanParams 0 path).map pieceMark

/-- The text of a piece in the expression. -/
def pieceSource : PathPiece → ByteString
  | .text b => escapedByte b
  | .param name => namedGroup name

theorem replaceParams_escaped (path : ByteString) :
    replaceParams (escapeSpecialChars path) = (scanParams 0 path).flatMap pieceSource := by
  rw [escapeSpecialChars_eq, replaceParams, scanParams_escaped, List.flatMap_assoc]
  refine List.flatMap_congr ?_
  intro piece _
  cases piece with
  | text b =>
      rw [escapedPieces, pieceSource, List.flatMap_map]
      exact List.flatMap_singleton' _
  | param name => exact List.append_nil _

theorem readMarks_piece {piece : PathPiece}
    (h : (∃ b, b ≠ byte '\\' ∧ piece = .text b) ∨
      ∃ name, piece = .param name ∧ ∀ b ∈ name, isParamPart b = true) (s : ByteString) :
    readMarks 0 (pieceSource piece ++ s) = (readMarks 0 s).map (pieceMark piece :: ·) := by
  rcases h with ⟨b, hbackslash, rfl⟩ | ⟨name, rfl, hname⟩
  · rw [pieceSource, pieceMark, escapedByte]
    by_cases hb : b ∈ specialChars
    · have hstar : b ≠ byte '*' := fun heq => absurd (heq ▸ hb) (by decide)
      rw [if_pos hb, if_neg hstar]
      exact readMarks_escaped hb s
    · rw [if_neg hb]
      by_cases hstar : b = byte '*'
      · rw [if_pos hstar, hstar]
        exact readMarks_star s
      · rw [if_neg hstar]
        exact readMarks_lit hb hstar hbackslash s
  · have hgt : byte '>' ∉ name := fun hmem => absurd (hname _ hmem) (by decide)
    have htext : pieceSource (.param name) ++ s
        = ascii "(?P<" ++ (name ++ (ascii ">[^/]+)" ++ s)) := by
      rw [pieceSource, namedGroup, List.append_assoc, List.append_assoc]
    rw [htext]
    exact readMarks_group hgt s

theorem readMarks_pieces {path : ByteString} (h : byte '\\' ∉ path) :
    readMarks 0 ((scanParams 0 path).flatMap pieceSource) = some (pathMarks path) := by
  have hall : ∀ piece ∈ scanParams 0 path, (∃ b, b ≠ byte '\\' ∧ piece = .text b) ∨
      ∃ name, piece = .param name ∧ ∀ b ∈ name, isParamPart b = true := by
    intro piece hpiece
    rcases mem_scanParams hpiece with ⟨b, hb, rfl⟩ | hname
    · exact .inl ⟨b, fun heq => h (heq ▸ hb), rfl⟩
    · exact .inr hname
  rw [pathMarks]
  generalize scanParams 0 path = pieces at hall
  induction pieces with
  | nil => rfl
  | cons piece pieces ih =>
      rw [List.flatMap_cons, readMarks_piece (hall piece (List.mem_cons_self ..)),
        ih (fun p hp => hall p (List.mem_cons_of_mem _ hp))]
      rfl

/-- **THE EXPRESSION.**  Between its anchors the expression of a path reads as the path. -/
theorem readAnchored_paramRegexSource {path : ByteString} (h : byte '\\' ∉ path) :
    readAnchored (paramRegexSource path) = some (tokensOf (pathMarks path)) := by
  have hsource : paramRegexSource path
      = byte '^' :: (((scanParams 0 path).flatMap pieceSource) ++ [byte '$']) := by
    rw [paramRegexSource, replaceParams_escaped]
    rfl
  have hlast : (paramRegexSource path).getLast? = some (byte '$') := by
    rw [hsource, ← List.cons_append, List.getLast?_concat]
  have hbody : (paramRegexSource path).tail.dropLast
      = (scanParams 0 path).flatMap pieceSource := by
    rw [hsource, List.tail_cons, List.dropLast_concat]
  rw [readAnchored, if_pos ⟨by rw [hsource]; rfl, hlast⟩, hbody, readMarks_pieces h]
  rfl

/-- A path without a star has an expression without one. -/
theorem star_not_mem_source {path : ByteString} (h : byte '*' ∉ path) :
    byte '*' ∉ paramRegexSource path := by
  rw [paramRegexSource, replaceParams_escaped]
  intro hmem
  rcases List.mem_append.mp hmem with hmem | hmem
  · rcases List.mem_append.mp hmem with hmem | hmem
    · exact absurd hmem (by decide)
    · obtain ⟨piece, hpiece, hstar⟩ := List.mem_flatMap.mp hmem
      rcases mem_scanParams hpiece with ⟨b, hb, rfl⟩ | ⟨name, rfl, hname⟩
      · rw [pieceSource, escapedByte] at hstar
        split at hstar
        · rcases List.mem_cons.mp hstar with hstar | hstar
          · exact absurd hstar (by decide)
          · exact h (List.mem_singleton.mp hstar ▸ hb)
        · exact h (List.mem_singleton.mp hstar ▸ hb)
      · rcases List.mem_append.mp hstar with hstar | hstar
        · rcases List.mem_append.mp hstar with hstar | hstar
          · exact absurd hstar (by decide)
          · exact absurd (hname _ hstar) (by decide)
        · exact absurd hstar (by decide)
  · exact absurd hmem (by decide)

theorem paramNames_eq (path : ByteString) :
    paramNames path = (pathMarks path).filterMap Mark.groupName := by
  rw [paramNames, pathMarks, List.filterMap_map]
  refine List.filterMap_congr ?_
  intro piece _
  cases piece with
  | text b =>
      show none = (pieceMark (.text b)).groupName
      rw [pieceMark]
      by_cases hb : b = byte '*'
      · rw [if_pos hb]
        rfl
      · rw [if_neg hb]
        rfl
  | param name => rfl

end VHono
