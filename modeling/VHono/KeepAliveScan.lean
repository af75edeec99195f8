import VHono.ConnectionScan

/-! # The scan for the connection field

    A request of the older version keeps its connection if its `Connection:`
    field says so.  The scan looks for the text `connection:` at every position
    of the header section, not at the beginnings of its lines alone, and takes
    the first place it finds: so a longer name that ends in it, or a value that
    holds it, answers for the field. -/

namespace VHono

open ByteString CheckedSlices HttpGrammar

/-! ## The lines of the header section -/

/-- What the scan answers for the field it takes a text for. -/
def saysKeepAlive (text : ByteString) : Bool := containsIgnoreCase text (ascii "keep-alive")

/-- A word neither begins nor ends with a blank. -/
def Unpadded (word : ByteString) : Prop :=
  ∀ b, isBlank b = true →
    (toLower word).head? ≠ some (lowerByte b) ∧ (toLower word).getLast? ≠ some (lowerByte b)

theorem unpadded_of_ends {word : ByteString}
    (h : ∀ b ∈ [32, 9], (toLower word).head? ≠ some (lowerByte b) ∧
      (toLower word).getLast? ≠ some (lowerByte b)) : Unpadded word := by
  intro b hb
  rw [isBlank, Bool.or_eq_true, beq_iff_eq, beq_iff_eq] at hb
  exact h b (List.mem_pair.mpr hb)

/-- The blanks around a value hold no part of a word. -/
theorem containsIgnoreCase_padded {word before after : ByteString} (hword : Unpadded word)
    (hne : toLower word ≠ []) (hbefore : ∀ b ∈ before, isBlank b = true)
    (hafter : ∀ b ∈ after, isBlank b = true) (s : ByteString) :
    containsIgnoreCase (before ++ (s ++ after)) word = containsIgnoreCase s word := by
  induction before with
  | cons b before ih =>
      have hb := (hword b (hbefore b (List.mem_cons_self ..))).1
      rw [← ih (fun c hc => hbefore c (List.mem_cons_of_mem _ hc))]
      exact containsStr_cons_ne hb hne _
  | nil =>
      rw [List.nil_append]
      induction after using List.reverseRecOn with
      | nil => rw [List.append_nil]
      | append_singleton after b ih =>
          have hb := (hword b (hafter b (by simp))).2
          rw [← ih (fun c hc => hafter c (List.mem_append_left _ hc)), ← List.append_assoc,
            containsIgnoreCase, toLower, List.map_append]
          exact containsStr_concat_ne hb hne _

theorem saysKeepAlive_padded {before after : ByteString} (hbefore : ∀ b ∈ before, isBlank b = true)
    (hafter : ∀ b ∈ after, isBlank b = true) (s : ByteString) :
    saysKeepAlive (before ++ (s ++ after)) = saysKeepAlive s :=
  containsIgnoreCase_padded (unpadded_of_ends (by decide)) (by decide) hbefore
    hafter s

theorem takeWhile_stop {test : UInt8 → Bool} {m s : ByteString} {c : UInt8}
    (hc : test c = false) : (m ++ c :: s).takeWhile test = m.takeWhile test := by
  induction m with
  | nil => rw [List.nil_append, List.takeWhile_cons, hc]; rfl
  | cons b m ih => rw [List.cons_append, List.takeWhile_cons, List.takeWhile_cons, ih]

/-- The value behind a position reaches to the end of its line. -/
theorem keepAliveBehind_line {a m t : ByteString} (hcr : (13 : UInt8) ∉ m)
    (hlf : (10 : UInt8) ∉ m) :
    keepAliveBehind (a ++ (m ++ 13 :: t)) a.length = saysKeepAlive m := by
  have hrest : ∀ p q : ByteString, slice (p ++ q) p.length (p ++ q).length = q := by
    intro p q
    rw [slice, List.take_length, List.drop_left]
  obtain ⟨blanks, rest, hm, hblanks, hspan⟩ : ∃ blanks rest, m = blanks ++ rest ∧
      (∀ b ∈ blanks, isBlank b = true) ∧ m.takeWhile (· == 32) = blanks := by
    refine ⟨_, _, (List.takeWhile_append_dropWhile ..).symm, fun b hb => ?_, rfl⟩
    have htest : (b == 32) = true := List.all_eq_true.mp List.all_takeWhile b hb
    rw [isBlank, htest, Bool.true_or]
  have hstart : spanEnd (· == 32) (a ++ (m ++ 13 :: t)) a.length (a ++ (m ++ 13 :: t)).length
      = (a ++ blanks).length := by
    rw [spanEnd, hrest, takeWhile_stop (by decide), hspan, List.length_append]
  have htext : a ++ (m ++ 13 :: t) = (a ++ blanks) ++ (rest ++ 13 :: t) := by
    rw [hm]
    simp only [List.append_assoc]
  have hplain : ∀ b ∈ rest, (b != 13 && b != 10) = true := by
    intro b hb
    have hbm : b ∈ m := hm ▸ List.mem_append_right _ hb
    rw [Bool.and_eq_true, bne_iff_ne, bne_iff_ne]
    exact ⟨fun h => hcr (h ▸ hbm), fun h => hlf (h ▸ hbm)⟩
  have hend : spanEnd (fun b => b != 13 && b != 10) (a ++ (m ++ 13 :: t)) (a ++ blanks).length
      (a ++ (m ++ 13 :: t)).length = (a ++ blanks).length + rest.length := by
    rw [spanEnd, htext, hrest, takeWhile_append_all hplain, List.takeWhile_cons_of_neg (by decide),
      List.append_nil]
  rw [keepAliveBehind, hstart, hend, containsKeepAliveToken_eq (Nat.le_add_right _ _) ?_,
    slice_eq htext rfl rfl]
  · show saysKeepAlive rest = _
    have hpadded := saysKeepAlive_padded hblanks (fun b hb => absurd hb List.not_mem_nil) rest
    rw [List.append_nil] at hpadded
    rw [hm, hpadded]
  · rw [htext]
    simp only [List.length_append]
    omega

theorem toLower_sep (m t : ByteString) : toLower (m ++ 13 :: t) = toLower m ++ 13 :: toLower t :=
  List.map_append

theorem length_of_startsWith {m : ByteString}
    (h : startsWith (toLower m) (ascii "connection:") = true) : 11 ≤ m.length := by
  have hword : (ascii "connection:").length = 11 := by decide
  have hlength := (startsWith_iff.mp h).length_le
  rwa [hword, toLower, List.length_map] at hlength

/-- A field name is found at the beginning of a line if the line has it. -/
theorem connectionAt_line {m t : ByteString} (ht : 3 ≤ t.length) :
    connectionAt (m ++ 13 :: t) 0 = startsWith (toLower m) (ascii "connection:") := by
  have hcr : (13 : UInt8) ∉ ascii "connection:" := by decide
  rw [Bool.eq_iff_iff, connectionAt_iff, toLower_sep, startsWith_sep hcr]
  refine ⟨And.right, fun h => ⟨?_, h⟩⟩
  have hlength := length_of_startsWith h
  rw [List.length_append, List.length_cons]
  omega

/-- A name found leaves room behind it: what follows the line is long enough. -/
theorem length_of_connectionAt {m t : ByteString} (ht : 3 ≤ t.length)
    (h : connectionAt (m ++ 13 :: t) 0 = true) : 12 < (m ++ 13 :: t).length := by
  rw [connectionAt_line ht] at h
  have hlength := length_of_startsWith h
  rw [List.length_append, List.length_cons]
  omega

/-- The scan of a line: the first text `connection:` in it answers. -/
theorem scanned_line {t : ByteString} (ht : 3 ≤ t.length) : ∀ {m : ByteString},
    (13 : UInt8) ∉ m → (10 : UInt8) ∉ m →
      scanned (m ++ 13 :: t) = match indexOf (ascii "connection:") (toLower m) with
        | some k => saysKeepAlive (m.drop (k + 11))
        | none => scanned (13 :: t) := by
  intro m
  induction m with
  | nil => exact fun _ _ => rfl
  | cons b m ih =>
      intro hcr hlf
      have hb : b ≠ 13 := fun h => hcr (h ▸ List.mem_cons_self ..)
      have hat : connectionAt (b :: (m ++ 13 :: t)) 0
          = startsWith (toLower (b :: m)) (ascii "connection:") :=
        @connectionAt_line (b :: m) t ht
      cases hstart : startsWith (toLower (b :: m)) (ascii "connection:") with
      | true =>
          rw [hstart] at hat
          have hlength := length_of_startsWith hstart
          have hroom : 12 < (b :: (m ++ 13 :: t)).length :=
            @length_of_connectionAt (b :: m) t ht hat
          have htake : (b :: m).take 11 ++ (b :: m).drop 11 = b :: m := List.take_append_drop 11 _
          have hdrop : ∀ c, c ∉ b :: m → c ∉ (b :: m).drop 11 :=
            fun c hc h => hc (List.mem_of_mem_drop h)
          have hsplit : b :: (m ++ 13 :: t)
              = (b :: m).take 11 ++ ((b :: m).drop 11 ++ 13 :: t) := by
            rw [← List.append_assoc, htake, List.cons_append]
          have hbehind := keepAliveBehind_line (a := (b :: m).take 11) (t := t)
            (hdrop 13 hcr) (hdrop 10 hlf)
          rw [← hsplit, List.length_take, Nat.min_eq_left hlength] at hbehind
          rw [indexOf_here hstart]
          exact (scanned_found hb hat hroom).trans hbehind
      | false =>
          rw [hstart] at hat
          have hrest := ih (fun h => hcr (List.mem_cons_of_mem _ h))
            (fun h => hlf (List.mem_cons_of_mem _ h))
          have hskip : indexOf (ascii "connection:") (toLower (b :: m))
              = (indexOf (ascii "connection:") (toLower m)).map (· + 1) := indexOf_skip hstart
          rw [List.cons_append, scanned_skip hb hat, hrest, hskip]
          cases indexOf (ascii "connection:") (toLower m) with
          | none => rfl
          | some k => rfl

/-- A line end before a line. -/
theorem scanned_crlf {m t : ByteString} (hm : m ≠ []) (hcr : (13 : UInt8) ∉ m) (ht : 3 ≤ t.length) :
    scanned (crlf ++ (m ++ 13 :: t)) = scanned (m ++ 13 :: t) := by
  obtain ⟨b, m, rfl⟩ := List.exists_cons_of_ne_nil hm
  have hb : b ≠ 13 := fun h => hcr (h ▸ List.mem_cons_self ..)
  have hfirst : lineEndAt (13 :: 10 :: b :: (m ++ 13 :: t)) 0 := ⟨rfl, by simp, rfl⟩
  have hsecond : ¬ lineEndAt (13 :: 10 :: b :: (m ++ 13 :: t)) 2 := fun h => hb h.1
  have hbehind : connectionAt (13 :: 10 :: b :: (m ++ 13 :: t)) 2
      = connectionAt (b :: (m ++ 13 :: t)) 0 := connectionAt_behind crlf _ 0
  show scanned (13 :: 10 :: b :: (m ++ 13 :: t)) = scanned (b :: (m ++ 13 :: t))
  rw [scanned_cons, if_pos hfirst, if_neg hsecond, keepAliveAt]
  cases hat : connectionAt (b :: (m ++ 13 :: t)) 0 with
  | true =>
      have hroom : 12 < (b :: (m ++ 13 :: t)).length := @length_of_connectionAt (b :: m) t ht hat
      have hlong : 12 < (13 :: 10 :: b :: (m ++ 13 :: t)).length := by
        rw [List.length_cons, List.length_cons]
        omega
      rw [if_pos hlong, scanned_found hb hat hroom, if_pos (hbehind.trans hat)]
      exact keepAliveBehind_behind crlf _ (by omega)
  | false =>
      rw [scanned_skip hb hat, if_neg (Bool.eq_false_iff.mp (hbehind.trans hat))]
      split
      · exact keepAliveFrom_scanned (a := [13, 10, b]) (Nat.le_add_right _ 2)
      · rename_i hshort
        simp only [List.length_cons] at hshort
        exact (scanned_short (by omega)).symm

theorem scanned_blank (s : ByteString) : scanned (crlf ++ (crlf ++ s)) = false := by
  show scanned (13 :: 10 :: 13 :: 10 :: s) = false
  have hfirst : lineEndAt (13 :: 10 :: 13 :: 10 :: s) 0 := ⟨rfl, by simp, rfl⟩
  have hsecond : lineEndAt (13 :: 10 :: 13 :: 10 :: s) 2 := ⟨rfl, by simp, rfl⟩
  rw [scanned_cons, if_pos hfirst, if_pos hsecond, ite_self]

/-! ## A whole request -/

/-- The fields answered for by the first of them that holds the text `connection:`. -/
def fieldsSay : List Field → Bool
  | [] => false
  | f :: fs =>
    match indexOf (ascii "connection:") (toLower f.line) with
    | some k => saysKeepAlive (f.line.drop (k + 11))
    | none => fieldsSay fs

theorem lf_not_mem_line (f : Field) : (10 : UInt8) ∉ f.line := by
  have hname : (10 : UInt8) ∉ f.name := not_mem_of_test f.name_token (by decide)
  have hbefore : (10 : UInt8) ∉ f.before := not_mem_of_test f.before_blank (by decide)
  have hvalue : (10 : UInt8) ∉ f.value := not_mem_of_test f.value_bytes (by decide)
  have hafter : (10 : UInt8) ∉ f.after := not_mem_of_test f.after_blank (by decide)
  have hcolon : (10 : UInt8) ≠ byte ':' := by decide
  simp only [Field.line, List.mem_append, List.mem_cons, not_or]
  exact ⟨hname, hcolon, hbefore, hvalue, hafter⟩

theorem scanned_fields (body : ByteString) : ∀ fields : List Field,
    scanned (crlf ++ (headerText fields ++ (crlf ++ body))) = fieldsSay fields := by
  intro fields
  induction fields with
  | nil => exact scanned_blank body
  | cons f fs ih =>
      have htext : headerText (f :: fs) ++ (crlf ++ body)
          = f.line ++ 13 :: 10 :: (headerText fs ++ (crlf ++ body)) := by
        simp only [headerText, List.flatMap_cons, crlf, List.append_assoc, List.cons_append,
          List.nil_append]
      have hroom : 3 ≤ (10 :: (headerText fs ++ (crlf ++ body))).length := by
        simp only [crlf, List.length_cons, List.length_append]
        omega
      rw [htext, scanned_crlf f.line_ne_nil f.cr_not_mem_line hroom,
        scanned_line hroom f.cr_not_mem_line (lf_not_mem_line f), fieldsSay]
      cases indexOf (ascii "connection:") (toLower f.line) with
      | some k => rfl
      | none => exact ih

/-- The scan of a request, from the end of its first line on. -/
theorem hasConnectionKeepAlive_render (r : Request) :
    hasConnectionKeepAlive r.render r.line.length = fieldsSay r.fields := by
  rw [hasConnectionKeepAlive, Request.render,
    keepAliveFrom_scanned (by simp only [List.length_append]; omega)]
  exact scanned_fields r.body r.fields

/-- Is it the connection field? -/
def isConnectionField (f : Field) : Bool := decide (toLower f.name = ascii "connection")

/-- What the first connection field says, if there is one. -/
def connectionSays (fields : List Field) : Bool :=
  (fields.find? isConnectionField).any (fun f => saysKeepAlive f.value)

/-- The answer of the first field ahead of that one that holds the text `connection:`. -/
def strayAnswer : List Field → Option Bool
  | [] => none
  | f :: fs =>
    if isConnectionField f then none
    else match indexOf (ascii "connection:") (toLower f.line) with
      | some k => some (saysKeepAlive (f.line.drop (k + 11)))
      | none => strayAnswer fs

/-- The connection field answers for itself. -/
theorem fieldsSay_connection {f : Field} (hf : isConnectionField f = true) (fs : List Field) :
    fieldsSay (f :: fs) = saysKeepAlive f.value := by
  have hname : toLower f.name = ascii "connection" := of_decide_eq_true hf
  have hlength : f.name.length = 10 := by
    have hword : (ascii "connection").length = 10 := by decide
    rw [← hword, ← hname, toLower, List.length_map]
  have hline : toLower f.line
      = ascii "connection:" ++ toLower (f.before ++ (f.value ++ f.after)) := by
    have hsplit : ascii "connection:" = ascii "connection" ++ [lowerByte (byte ':')] := by
      decide
    rw [hsplit, ← hname, List.append_assoc]
    exact List.map_append
  have hstart : indexOf (ascii "connection:") (toLower f.line) = some 0 := by
    rw [hline]
    exact indexOf_here (startsWith_append _ _)
  have hdrop := f.cut_line.2.2
  rw [hlength] at hdrop
  rw [fieldsSay, hstart]
  show saysKeepAlive (f.line.drop (10 + 1)) = _
  rw [hdrop, saysKeepAlive_padded f.before_blank f.after_blank]

/-- What the scan answers: the stray field if there is one, and else the connection field. -/
theorem fieldsSay_eq (fields : List Field) :
    fieldsSay fields = (strayAnswer fields).getD (connectionSays fields) := by
  induction fields with
  | nil => rfl
  | cons f fs ih =>
      cases hf : isConnectionField f with
      | true =>
          rw [fieldsSay_connection hf, strayAnswer, if_pos hf, connectionSays,
            List.find?_cons_of_pos hf]
          rfl
      | false =>
          have hnot : ¬ isConnectionField f = true := Bool.eq_false_iff.mp hf
          rw [fieldsSay, strayAnswer, if_neg hnot, connectionSays, List.find?_cons_of_neg hnot]
          cases indexOf (ascii "connection:") (toLower f.line) with
          | some k => rfl
          | none => exact ih

/-- The scan reads what is there, and answers what the first connection field says. -/
def AnswersForConnection (r : Request) : Prop :=
  keepAliveChecked r.render (r.render.length + 1) r.line.length = some (connectionSays r.fields)

/-- The first field ahead of the connection field that holds the text `connection:` says the
    same. -/
def StrayAgrees (fields : List Field) : Prop :=
  ∀ answer ∈ strayAnswer fields, answer = connectionSays fields

theorem answersForConnection_iff (r : Request) : AnswersForConnection r ↔ StrayAgrees r.fields := by
  rw [AnswersForConnection, keepAliveChecked_eq _ _ _ (Nat.le_add_left _ _), Option.some.injEq]
  show hasConnectionKeepAlive r.render r.line.length = _ ↔ _
  rw [hasConnectionKeepAlive_render, fieldsSay_eq, StrayAgrees]
  cases strayAnswer r.fields with
  | none => exact iff_of_true rfl (fun answer h => absurd h (Option.not_mem_none _))
  | some answer =>
      rw [Option.getD_some]
      exact ⟨fun h a ha => Option.some.inj ha ▸ h, fun h => h answer rfl⟩

/-! ## A longer name -/

/-- `Proxy-Connection: keep-alive` -/
def proxyField : Field where
  name := ascii "Proxy-Connection"
  value := ascii "keep-alive"
  before := [32]
  after := []
  name_ne := by decide
  name_token := by decide +kernel
  value_bytes := by decide +kernel
  value_head := by decide +kernel
  value_last := by decide +kernel
  before_blank := by decide +kernel
  after_blank := by decide +kernel

theorem proxy_method_ne : ascii "GET" ≠ [] := by decide

/-- `GET / HTTP/1.0` with that field. -/
def proxyRequest : Request where
  method := ascii "GET"
  target := ascii "/"
  minor := byte '0'
  fields := [proxyField]
  body := []
  method_ne := proxy_method_ne
  method_token := by decide +kernel
  target_ne := by decide
  target_bytes := by decide +kernel
  minor_digit := by decide

/-- A request without a connection field keeps its connection. -/
theorem proxy_kept_alive : ¬ AnswersForConnection proxyRequest := by
  intro h
  have hstray : strayAnswer proxyRequest.fields = some true := by decide
  have hsays : connectionSays proxyRequest.fields = false := by decide
  have hscan := keepAliveChecked_eq proxyRequest.render proxyRequest.render.length
    proxyRequest.line.length (Nat.le_add_left _ _)
  have hanswer : hasConnectionKeepAlive proxyRequest.render proxyRequest.line.length = true := by
    rw [hasConnectionKeepAlive_render, fieldsSay_eq, hstray]
    rfl
  rw [AnswersForConnection, hscan, hsays] at h
  exact Bool.noConfusion (hanswer.symm.trans (Option.some.inj h))

end VHono
