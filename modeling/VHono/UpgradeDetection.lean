import VHono.BackendRequests
import VHono.KeepAliveScan

/-! # WebSocket upgrades under the two backends

    Both backends look for the same three header fields.  picoev looks at the
    parsed fields: an `Upgrade:` that is websocket, a `Connection:` that names
    the upgrade, a key that is not empty.  uSockets looks at every line of the
    message, those of the body too, and is content with an `Upgrade:` that only
    mentions websocket and with an empty key.  What picoev takes for an upgrade
    uSockets does; the other way the requests are told exactly. -/

namespace VHono

open ByteString HttpGrammar

/-! ## Loops that collect flags -/

/-- A loop whose passes set each flag by a test of its own. -/
theorem foldl_flags {α : Type} {step : UpgradeFlags → α → UpgradeFlags}
    {upgrade connection key : α → Bool}
    (hstep : ∀ flags x, step flags x = ⟨flags.hasUpgrade || upgrade x,
      flags.hasConnection || connection x, flags.hasWsKey || key x⟩) (xs : List α) :
    ∀ flags, xs.foldl step flags = ⟨flags.hasUpgrade || xs.any upgrade,
      flags.hasConnection || xs.any connection, flags.hasWsKey || xs.any key⟩ := by
  induction xs with
  | nil =>
      intro flags
      simp only [List.foldl_nil, List.any_nil, Bool.or_false]
  | cons x xs ih =>
      intro flags
      simp only [List.foldl_cons, hstep, ih, List.any_cons, Bool.or_assoc]

/-- All three flags of such a loop. -/
theorem foldl_flags_all {α : Type} {step : UpgradeFlags → α → UpgradeFlags}
    {upgrade connection key : α → Bool}
    (hstep : ∀ flags x, step flags x = ⟨flags.hasUpgrade || upgrade x,
      flags.hasConnection || connection x, flags.hasWsKey || key x⟩) (xs : List α) :
    (xs.foldl step .none).all = (xs.any upgrade && xs.any connection && xs.any key) := by
  rw [foldl_flags hstep, UpgradeFlags.all]
  simp only [UpgradeFlags.none, Bool.false_or]

/-! ## The tests of a line -/

/-- Is it a line of the field, in any case? -/
def lineOf (name line : ByteString) : Bool := startsWith (toLower line) (name ++ [byte ':'])

def upgradeLine (line : ByteString) : Bool :=
  lineOf (ascii "upgrade") line && containsStr (toLower line) (ascii "websocket")

def connectionLine (line : ByteString) : Bool :=
  lineOf (ascii "connection") line && containsStr (toLower line) (ascii "upgrade")

def keyLine (line : ByteString) : Bool := lineOf (ascii "sec-websocket-key") line

/-- Texts of which neither begins the other begin no line both. -/
theorem lineOf_other {name : ByteString} (other : ByteString)
    (h : startsWith (name ++ [byte ':']) (other ++ [byte ':']) = false ∧
      startsWith (other ++ [byte ':']) (name ++ [byte ':']) = false) {line : ByteString}
    (hline : lineOf name line = true) : lineOf other line = false := by
  rw [Bool.eq_false_iff]
  intro hother
  have hname := startsWith_iff.mp hline
  have hboth := List.prefix_or_prefix_of_prefix hname (startsWith_iff.mp hother)
  rcases hboth with hle | hle
  · exact Bool.noConfusion (h.2.symm.trans (startsWith_iff.mpr hle))
  · exact Bool.noConfusion (h.1.symm.trans (startsWith_iff.mpr hle))

theorem usocketsUpgradeStep_eq (flags : UpgradeFlags) (line : ByteString) :
    usocketsUpgradeStep flags line = ⟨flags.hasUpgrade || upgradeLine line,
      flags.hasConnection || connectionLine line, flags.hasWsKey || keyLine line⟩ := by
  have hupgrade : startsWith (toLower line) (ascii "upgrade:") = lineOf (ascii "upgrade") line :=
    congrArg (startsWith (toLower line)) (by decide)
  have hconnection : startsWith (toLower line) (ascii "connection:")
      = lineOf (ascii "connection") line :=
    congrArg (startsWith (toLower line)) (by decide)
  have hkey : startsWith (toLower line) (ascii "sec-websocket-key:")
      = lineOf (ascii "sec-websocket-key") line :=
    congrArg (startsWith (toLower line)) (by decide)
  rw [usocketsUpgradeStep, hupgrade, hconnection, hkey, upgradeLine, connectionLine, keyLine]
  -- a line is one of the three at most
  by_cases hu : lineOf (ascii "upgrade") line = true
  · have hc := lineOf_other (ascii "connection") (by decide) hu
    have hk := lineOf_other (ascii "sec-websocket-key") (by decide) hu
    rw [if_pos hu, hu, hc, hk]
    cases containsStr (toLower line) (ascii "websocket") <;>
      simp only [Bool.false_and, Bool.true_and, Bool.or_false, Bool.or_true, if_true,
        Bool.false_eq_true, if_false]
  · rw [if_neg hu, Bool.eq_false_iff.mpr hu]
    by_cases hc : lineOf (ascii "connection") line = true
    · have hk := lineOf_other (ascii "sec-websocket-key") (by decide) hc
      rw [if_pos hc, hc, hk]
      cases containsStr (toLower line) (ascii "upgrade") <;>
        simp only [Bool.false_and, Bool.true_and, Bool.or_false, Bool.or_true, if_true,
          Bool.false_eq_true, if_false]
    · rw [if_neg hc, Bool.eq_false_iff.mpr hc]
      cases lineOf (ascii "sec-websocket-key") line <;>
        simp only [Bool.false_and, Bool.or_false, Bool.or_true, if_true, Bool.false_eq_true,
          if_false]

/-! ## The tests of a field -/

theorem eq_colon_of_lowerByte {b : UInt8} (h : lowerByte b = byte ':') : b = byte ':' := by
  rw [lowerByte] at h
  split at h
  · rename_i hletter
    have hsum := congrArg UInt8.toNat h
    have hlow : 65 ≤ b.toNat := UInt8.le_iff_toNat_le.mp hletter.1
    have hhigh : b.toNat ≤ 90 := UInt8.le_iff_toNat_le.mp hletter.2
    rw [UInt8.toNat_add] at hsum
    change (b.toNat + 32) % 256 = 58 at hsum
    omega
  · exact h

theorem colon_not_mem_lower {s : ByteString} (h : byte ':' ∉ s) : byte ':' ∉ toLower s := by
  rw [toLower, List.mem_map]
  rintro ⟨b, hb, hcolon⟩
  exact h (eq_colon_of_lowerByte hcolon ▸ hb)

theorem toLower_line (f : Field) : toLower f.line
    = toLower f.name ++ byte ':' :: toLower (f.before ++ (f.value ++ f.after)) :=
  List.map_append

/-- A field's line is a line of it. -/
theorem lineOf_line {name : ByteString} (hname : byte ':' ∉ name) (f : Field) :
    lineOf name f.line = decide (toLower f.name = name) := by
  rw [lineOf, toLower_line, Bool.eq_iff_iff, decide_eq_true_eq, startsWith_iff]
  constructor
  · rintro ⟨rest, hrest⟩
    rw [List.append_assoc] at hrest
    exact (append_sep_inj hname (colon_not_mem_lower f.colon_not_mem_name) hrest).1.symm
  · rintro rfl
    exact ⟨_, List.append_assoc ..⟩

/-- A word stands in the line of a field if it does in the name or in the value. -/
theorem containsStr_line {word : ByteString} (hcolon : byte ':' ∉ word) (hword : Unpadded word)
    (hlower : toLower word = word) (hne : word ≠ []) (f : Field) :
    containsStr (toLower f.line) word
      = (containsStr (toLower f.name) word || containsIgnoreCase f.value word) := by
  have hvalue := containsIgnoreCase_padded hword (hlower.symm ▸ hne) f.before_blank f.after_blank
    f.value
  rw [toLower_line, containsStr_sep hcolon hne, ← hvalue, containsIgnoreCase, hlower]

def upgradeField (f : Field) : Bool :=
  decide (toLower f.name = ascii "upgrade") && containsIgnoreCase f.value (ascii "websocket")

def connectionField (f : Field) : Bool :=
  isConnectionField f && containsIgnoreCase f.value (ascii "upgrade")

def isKeyField (f : Field) : Bool := decide (toLower f.name = ascii "sec-websocket-key")

theorem upgradeLine_line (f : Field) : upgradeLine f.line = upgradeField f := by
  rw [upgradeLine, lineOf_line (by decide), upgradeField,
    containsStr_line (by decide) (unpadded_of_ends (by decide)) (by decide)
      (by decide)]
  by_cases hname : toLower f.name = ascii "upgrade"
  · have hfree : containsStr (ascii "upgrade") (ascii "websocket") = false := by decide
    rw [hname, hfree, Bool.false_or]
  · rw [decide_eq_false hname, Bool.false_and, Bool.false_and]

theorem connectionLine_line (f : Field) : connectionLine f.line = connectionField f := by
  rw [connectionLine, lineOf_line (by decide), connectionField, isConnectionField,
    containsStr_line (by decide) (unpadded_of_ends (by decide)) (by decide)
      (by decide)]
  by_cases hname : toLower f.name = ascii "connection"
  · have hfree : containsStr (ascii "connection") (ascii "upgrade") = false := by decide
    rw [hname, hfree, Bool.false_or]
  · rw [decide_eq_false hname, Bool.false_and, Bool.false_and]

theorem keyLine_line (f : Field) : keyLine f.line = isKeyField f :=
  lineOf_line (by decide) f

/-! ## The lines of a message -/

variable (r : Request)

/-- The request line is a line of no field: its method holds no colon, and ends at a space. -/
theorem lineOf_requestLine {name : ByteString} (hspace : (32 : UInt8) ∉ name) :
    lineOf name r.line = false := by
  have hline : toLower r.line = toLower r.method ++ 32 :: toLower (r.target ++ 32 :: r.version) :=
    List.map_append
  have hcolon : byte ':' ∉ toLower r.method :=
    colon_not_mem_lower (not_mem_of_test r.method_token (by decide))
  have hpattern : (32 : UInt8) ∉ name ++ [byte ':'] := by
    rw [List.mem_append, List.mem_singleton, not_or]
    exact ⟨hspace, by decide⟩
  rw [lineOf, hline, startsWith_sep hpattern, Bool.eq_false_iff]
  intro hstart
  have hin := (startsWith_iff.mp hstart).subset
  exact hcolon (hin (List.mem_append_right _ (List.mem_singleton_self _)))

theorem lineOf_nil (name : ByteString) : lineOf name [] = false := by
  cases name <;> rfl

/-- A test of the lines, over a message. -/
theorem any_lines {test : ByteString → Bool} {fieldTest : Field → Bool}
    (hline : test r.line = false) (hnil : test [] = false)
    (hfield : ∀ f, test f.line = fieldTest f) :
    (splitStr r.render crlf).any test
      = (r.fields.any fieldTest || (splitStr r.body crlf).any test) := by
  rw [r.splitStr_render, List.any_cons, hline, Bool.false_or, List.any_append, List.any_cons, hnil,
    Bool.false_or, List.any_map]
  have hsame : test ∘ Field.line = fieldTest := funext hfield
  rw [hsame]

/-- What uSockets takes for an upgrade. -/
theorem isUsocketsWsUpgrade_render : isUsocketsWsUpgrade r.render =
    ((r.fields.any upgradeField || (splitStr r.body crlf).any upgradeLine) &&
      (r.fields.any connectionField || (splitStr r.body crlf).any connectionLine) &&
      (r.fields.any isKeyField || (splitStr r.body crlf).any keyLine)) := by
  have hupgrade : upgradeLine r.line = false := by
    rw [upgradeLine, lineOf_requestLine r (by decide), Bool.false_and]
  have hconnection : connectionLine r.line = false := by
    rw [connectionLine, lineOf_requestLine r (by decide), Bool.false_and]
  have hkey : keyLine r.line = false := lineOf_requestLine r (by decide)
  rw [isUsocketsWsUpgrade, foldl_flags_all usocketsUpgradeStep_eq,
    any_lines r hupgrade (by decide) upgradeLine_line,
    any_lines r hconnection (by decide) connectionLine_line,
    any_lines r hkey (by decide) keyLine_line]

/-! ## The parsed fields -/

/-- An `Upgrade:` that is websocket and nothing else. -/
def exactUpgrade (f : Field) : Bool :=
  decide (toLower f.name = ascii "upgrade") && decide (toLower f.value = ascii "websocket")

/-- A key that is not empty. -/
def exactKey (f : Field) : Bool := isKeyField f && decide (f.value ≠ [])

/-- What picoev takes for an upgrade. -/
theorem isPicoevWsUpgrade_render : isPicoevWsUpgrade (picoRequest r) =
    (r.fields.any exactUpgrade && r.fields.any connectionField && r.fields.any exactKey) := by
  have hstep : ∀ (flags : UpgradeFlags) (f : Field), picoevUpgradeStep flags (f.name, f.value)
      = ⟨flags.hasUpgrade || exactUpgrade f, flags.hasConnection || connectionField f,
        flags.hasWsKey || exactKey f⟩ := by
    intro flags f
    rw [picoevUpgradeStep, exactUpgrade, connectionField, isConnectionField, exactKey, isKeyField]
    by_cases hu : toLower f.name = ascii "upgrade"
    · have hc : toLower f.name ≠ ascii "connection" := hu ▸ by decide
      have hk : toLower f.name ≠ ascii "sec-websocket-key" := hu ▸ by decide
      rw [if_pos hu, decide_eq_true hu, decide_eq_false hc, decide_eq_false hk]
      simp only [Bool.true_and, Bool.false_and, Bool.or_false]
      split
      · rename_i hvalue
        rw [decide_eq_true hvalue, Bool.or_true]
      · rename_i hvalue
        rw [decide_eq_false hvalue, Bool.or_false]
    · rw [if_neg hu, decide_eq_false hu]
      by_cases hc : toLower f.name = ascii "connection"
      · have hk : toLower f.name ≠ ascii "sec-websocket-key" := hc ▸ by decide
        rw [if_pos hc, decide_eq_true hc, decide_eq_false hk]
        simp only [Bool.true_and, Bool.false_and, Bool.or_false]
        cases containsIgnoreCase f.value (ascii "upgrade") <;>
          simp only [Bool.or_true, Bool.or_false, if_true, Bool.false_eq_true, if_false]
      · rw [if_neg hc, decide_eq_false hc]
        simp only [Bool.false_and, Bool.or_false, List.length_pos_iff]
        by_cases hk : toLower f.name = ascii "sec-websocket-key"
        · rw [if_pos hk, decide_eq_true hk, Bool.true_and]
          split
          · rename_i hvalue
            rw [decide_eq_true hvalue, Bool.or_true]
          · rename_i hvalue
            rw [decide_eq_false hvalue, Bool.or_false]
        · rw [if_neg hk, decide_eq_false hk, Bool.false_and, Bool.or_false]
  show ((fieldPairs r.fields).foldl picoevUpgradeStep .none).all = _
  rw [fieldPairs, List.foldl_map, foldl_flags_all hstep]

/-- The value of the first field with the name, in any case. -/
def sentValue (name : ByteString) : Option ByteString :=
  (r.fields.find? (fun f => decide (toLower f.name = name))).map Field.value

theorem value_of_line (f : Field) :
    trimSpace ((f.line.dropWhile (· ≠ byte ':')).tail) = f.value := by
  have hname : ∀ b ∈ f.name, decide (b ≠ byte ':') = true :=
    fun b hb => decide_eq_true (fun h => f.colon_not_mem_name (h ▸ hb))
  rw [Field.line, dropWhile_all hname, List.dropWhile_cons_of_neg (by simp), List.tail_cons,
    f.trimSpace_value]

/-- The first line of a field in a message is the field's, if there is one. -/
theorem usocketsHeader_render {name : ByteString} (hcolon : byte ':' ∉ name)
    (hspace : (32 : UInt8) ∉ name) :
    usocketsHeader r.render name = (sentValue r name).or (usocketsHeader r.body name) := by
  have hline : ¬ lineOf name r.line = true :=
    Bool.eq_false_iff.mp (lineOf_requestLine r hspace)
  have hnil : ¬ lineOf name [] = true := Bool.eq_false_iff.mp (lineOf_nil name)
  have hfields : (fun line => lineOf name line) ∘ Field.line
      = fun f => decide (toLower f.name = name) := funext (lineOf_line hcolon)
  show ((splitStr r.render crlf).find? (fun line => lineOf name line)).map _ = _
  rw [r.splitStr_render, List.find?_cons_of_neg hline, List.find?_append,
    List.find?_cons_of_neg hnil, List.find?_map, hfields, Option.map_or, Option.map_map]
  have hvalue : (fun line => trimSpace ((line.dropWhile (· ≠ byte ':')).tail)) ∘ Field.line
      = Field.value := funext value_of_line
  rw [hvalue]
  rfl

theorem picoevHeader_render {name : ByteString} (hlower : toLower name = name) :
    picoevHeader (picoRequest r) name = sentValue r name := by
  show ((fieldPairs r.fields).find? (fun h => eqIgnoreCase h.1 name)).map (·.2) = _
  have htest : (fun h : ByteString × ByteString => eqIgnoreCase h.1 name) ∘
      (fun f : Field => (f.name, f.value)) = fun f => decide (toLower f.name = name) := by
    funext f
    show (toLower f.name == toLower name) = _
    rw [hlower, beq_eq_decide]
  rw [fieldPairs, List.find?_map, Option.map_map, sentValue, htest]
  rfl

/-! ## Agreement -/

/-- Both take the message for an upgrade, or neither does; and of an upgrade they read the same
    key and version. -/
def DetectionAgrees : Prop :=
  isUsocketsWsUpgrade r.render = isPicoevWsUpgrade (picoRequest r) ∧
  (isUsocketsWsUpgrade r.render = true → isPicoevWsUpgrade (picoRequest r) = true →
    getUsocketsWsKey r.render = getPicoevWsKey (picoRequest r) ∧
    getUsocketsWsVersion r.render = getPicoevWsVersion (picoRequest r))

/-- Each of the three tests is met by some field or by some line of the body. -/
def FoundLoosely : Prop :=
  ((∃ f ∈ r.fields, upgradeField f = true) ∨
    ∃ line ∈ splitStr r.body crlf, upgradeLine line = true) ∧
  ((∃ f ∈ r.fields, connectionField f = true) ∨
    ∃ line ∈ splitStr r.body crlf, connectionLine line = true) ∧
  ((∃ f ∈ r.fields, isKeyField f = true) ∨
    ∃ line ∈ splitStr r.body crlf, keyLine line = true)

/-- The fields ask for the upgrade by themselves. -/
def HeldExactly : Prop :=
  (∃ f ∈ r.fields, exactUpgrade f = true) ∧ (∃ f ∈ r.fields, connectionField f = true) ∧
    ∃ f ∈ r.fields, exactKey f = true

/-- The version is a field's, or no line of the body says another than the default. -/
def VersionSettled : Prop :=
  (∃ f ∈ r.fields, toLower f.name = ascii "sec-websocket-version") ∨
    ∀ v ∈ usocketsHeader r.body (ascii "sec-websocket-version"), v = ascii "13"

theorem isUsocketsWsUpgrade_iff : isUsocketsWsUpgrade r.render = true ↔ FoundLoosely r := by
  rw [isUsocketsWsUpgrade_render, FoundLoosely]
  simp only [Bool.and_eq_true, Bool.or_eq_true, List.any_eq_true, and_assoc]

theorem isPicoevWsUpgrade_iff :
    isPicoevWsUpgrade (picoRequest r) = true ↔ HeldExactly r := by
  rw [isPicoevWsUpgrade_render, HeldExactly]
  simp only [Bool.and_eq_true, List.any_eq_true, and_assoc]

/-- What picoev takes for an upgrade, uSockets does. -/
theorem foundLoosely_of_heldExactly (h : HeldExactly r) : FoundLoosely r := by
  obtain ⟨⟨f, hf, hupgrade⟩, hconnection, ⟨g, hg, hkey⟩⟩ := h
  have hkey' := (Bool.and_eq_true _ _ ▸ hkey : isKeyField g = true ∧ _).1
  obtain ⟨hname, hvalue⟩ := (Bool.and_eq_true _ _ ▸ hupgrade : _ = true ∧ _ = true)
  have hloose : upgradeField f = true := by
    have hself : containsStr (ascii "websocket") (toLower (ascii "websocket")) = true := by
      decide
    rw [upgradeField, hname, containsIgnoreCase, of_decide_eq_true hvalue, hself]
    rfl
  exact ⟨.inl ⟨f, hf, hloose⟩, .inl hconnection, .inl ⟨g, hg, hkey'⟩⟩

theorem sentValue_eq_none {name : ByteString} :
    sentValue r name = none ↔ ¬ ∃ f ∈ r.fields, toLower f.name = name := by
  rw [sentValue, Option.map_eq_none_iff, List.find?_eq_none]
  constructor
  · rintro h ⟨f, hf, hname⟩
    exact h f hf (decide_eq_true hname)
  · intro h f hf hname
    exact h ⟨f, hf, of_decide_eq_true hname⟩

/-- The keys are the same once a field has it. -/
theorem getUsocketsWsKey_render (h : HeldExactly r) :
    getUsocketsWsKey r.render = getPicoevWsKey (picoRequest r) := by
  obtain ⟨-, -, ⟨f, hf, hkey⟩⟩ := h
  rw [exactKey, Bool.and_eq_true] at hkey
  have hsome : sentValue r (ascii "sec-websocket-key") ≠ none :=
    fun hnone => (sentValue_eq_none r).mp hnone ⟨f, hf, of_decide_eq_true hkey.1⟩
  rw [getUsocketsWsKey, getPicoevWsKey, usocketsHeader_render r (by decide)
    (by decide), picoevHeader_render r (by decide)]
  cases hvalue : sentValue r (ascii "sec-websocket-key") with
  | none => exact absurd hvalue hsome
  | some value => rfl

theorem getUsocketsWsVersion_render : getUsocketsWsVersion r.render
    = getPicoevWsVersion (picoRequest r) ↔ VersionSettled r := by
  rw [getUsocketsWsVersion, getPicoevWsVersion, usocketsHeader_render r (by decide)
    (by decide), picoevHeader_render r (by decide), VersionSettled]
  cases hvalue : sentValue r (ascii "sec-websocket-version") with
  | some value =>
      have hfield : ∃ f ∈ r.fields, toLower f.name = ascii "sec-websocket-version" := by
        by_contra hno
        rw [(sentValue_eq_none r).mpr hno] at hvalue
        cases hvalue
      exact iff_of_true rfl (.inl hfield)
  | none =>
      rw [or_iff_right ((sentValue_eq_none r).mp hvalue)]
      cases usocketsHeader r.body (ascii "sec-websocket-version") with
      | none => exact iff_of_true rfl (fun v hv => absurd hv (Option.not_mem_none _))
      | some v => exact ⟨fun h w hw => Option.some.inj hw ▸ h, fun h => h v rfl⟩

theorem detectionAgrees_iff :
    DetectionAgrees r ↔ (FoundLoosely r → HeldExactly r ∧ VersionSettled r) := by
  rw [DetectionAgrees, Bool.eq_iff_iff, isUsocketsWsUpgrade_iff, isPicoevWsUpgrade_iff]
  constructor
  · rintro ⟨hsame, hread⟩ hloose
    have hexact := hsame.mp hloose
    exact ⟨hexact, (getUsocketsWsVersion_render r).mp (hread hloose hexact).2⟩
  · intro h
    refine ⟨⟨fun hloose => (h hloose).1, foundLoosely_of_heldExactly r⟩, fun hloose hexact => ?_⟩
    exact ⟨getUsocketsWsKey_render r hexact, (getUsocketsWsVersion_render r).mpr (h hloose).2⟩

/-! ## A body that looks like a header -/

theorem upload_before : ∀ b ∈ ([32] : ByteString), HttpGrammar.isBlank b = true := by decide

theorem upload_after : ∀ b ∈ ([] : ByteString), HttpGrammar.isBlank b = true :=
  List.forall_mem_nil _

theorem upload_minor : byte '0' ≤ byte '1' ∧ byte '1' ≤ byte '9' := by decide

/-- `Content-Length: 57` -/
def uploadLength : Field where
  name := ascii "Content-Length"
  value := ascii "57"
  before := [32]
  after := []
  name_ne := by decide
  name_token := by decide +kernel
  value_bytes := by decide +kernel
  value_head := by decide +kernel
  value_last := by decide +kernel
  before_blank := upload_before
  after_blank := upload_after

/-- A post of three lines of text. -/
def uploadRequest : Request where
  method := ascii "POST"
  target := ascii "/notes"
  minor := byte '1'
  fields := [uploadLength]
  body := ascii "upgrade:websocket" ++ crlf ++ (ascii "connection:upgrade" ++ crlf ++
    ascii "sec-websocket-key:")
  method_ne := by decide
  method_token := by decide +kernel
  target_ne := by decide
  target_bytes := by decide +kernel
  minor_digit := upload_minor

/-- uSockets takes the post for an upgrade. -/
theorem upload_upgraded : ¬ DetectionAgrees uploadRequest := by
  rintro ⟨hsame, -⟩
  have husockets : isUsocketsWsUpgrade uploadRequest.render = true := by
    rw [isUsocketsWsUpgrade_render]
    decide
  have hpicoev : isPicoevWsUpgrade (picoRequest uploadRequest) = false := by
    rw [isPicoevWsUpgrade_render]
    decide
  rw [husockets, hpicoev] at hsame
  cases hsame

end VHono
