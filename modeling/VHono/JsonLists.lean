import VHono.JsonText
import VHono.LocalStorage

/-! # JSON texts of lists of strings

    A list of strings is written without blanks, each string between quotes
    with its quotes, its backslashes and its control characters escaped, and
    read back as it was. -/

namespace JsonLists

open ByteString JsonText VHono

def escapeByte (b : UInt8) : ByteString :=
  if b = byte '"' then ascii "\\\""
  else if b = byte '\\' then ascii "\\\\"
  else if b < 0x20 then ascii "\\u00" ++ LocalStorage.hexByte b
  else [b]

def encodeString (s : ByteString) : ByteString := ascii "\"" ++ s.flatMap escapeByte ++ ascii "\""

def encode (l : List ByteString) : ByteString :=
  byte '[' :: (List.intercalate (ascii ",") (l.map encodeString) ++ ascii "]")

def decodeString : ByteString → Option (ByteString × ByteString)
  | [] => none
  | c :: s => if c = byte '"' then text s else none

def decode : ByteString → Option (List ByteString)
  | [] => none
  | c :: s =>
    if c = byte '[' then
      match items decodeString (byte ']') s with
      | some (l, []) => some l
      | _ => none
    else none

theorem control_unit : ∀ n : Fin 32,
    hexUnit (byte '0') (byte '0') (LocalStorage.hexDigit (n.val / 16))
        (LocalStorage.hexDigit (n.val % 16)) = some n.val
      ∧ isHigh n.val = false ∧ loneUnit n.val = [UInt8.ofNat n.val] := by
  decide

/-- A control character is read from its number. -/
theorem text_unit {b : UInt8} (hb : b < 0x20) (s : ByteString) :
    text (ascii "\\u00" ++ LocalStorage.hexByte b ++ s)
      = (text s).map (fun r => (b :: r.1, r.2)) := by
  obtain ⟨hunit, hhigh, hlone⟩ := control_unit ⟨b.toNat, UInt8.lt_iff_toNat_lt.mp hb⟩
  dsimp only at hunit hhigh hlone
  rw [UInt8.ofNat_toNat] at hlone
  have hslash : byte '\\' ≠ byte '"' := by decide
  have hescape : shortEscape (byte 'u') = none := by decide
  have hpieces : pieces (byte '\\' :: byte 'u' :: byte '0' :: byte '0'
        :: LocalStorage.hexDigit (b.toNat / 16) :: LocalStorage.hexDigit (b.toNat % 16) :: s)
      = (pieces s).map (fun r => (.unit b.toNat :: r.1, r.2)) := by
    rw [pieces.eq_def]
    simp only [if_neg hslash, if_true, hescape, hunit]
  show text (byte '\\' :: byte 'u' :: byte '0' :: byte '0'
    :: LocalStorage.hexDigit (b.toNat / 16) :: LocalStorage.hexDigit (b.toNat % 16) :: s) = _
  rw [text, hpieces, text, Option.map_map, Option.map_map]
  congr 1
  funext r
  show (joinAfter none (.unit b.toNat :: r.1), r.2) = (b :: joinAfter none r.1, r.2)
  rw [joinAfter, hhigh, if_neg Bool.false_ne_true, hlone]
  rfl

theorem text_escapeByte (b : UInt8) (s : ByteString) :
    text (escapeByte b ++ s) = (text s).map (fun r => (b :: r.1, r.2)) := by
  rw [escapeByte]
  split
  · rename_i hquote
    rw [hquote]
    exact text_escape (by decide) s
  · rename_i hquote
    split
    · rename_i hslash
      rw [hslash]
      exact text_escape (by decide) s
    · rename_i hslash
      split
      · rename_i hcontrol
        exact text_unit hcontrol s
      · rename_i hplain
        exact text_plain hquote hslash hplain s

/-- By induction on the string. -/
theorem spells_escaped (t : ByteString) : Spells (t.flatMap escapeByte) (some t) := by
  intro s
  induction t with
  | nil => exact text_end s
  | cons b t ih =>
      rw [List.flatMap_cons, List.append_assoc, text_escapeByte, ih]
      rfl

theorem reads_encodeString (t : ByteString) :
    Reads decodeString (byte ']') (encodeString t) (some t) := by
  refine ⟨⟨byte '"', t.flatMap escapeByte ++ ascii "\"", rfl, by decide, by decide⟩, fun c s _ => ?_⟩
  have htext : encodeString t ++ c :: s
      = byte '"' :: (t.flatMap escapeByte ++ byte '"' :: c :: s) := by
    rw [encodeString, List.append_assoc, List.append_assoc]
    rfl
  rw [htext, decodeString, if_pos rfl]
  exact spells_escaped t _

theorem mapM_some (l : List ByteString) : l.mapM some = some l := by
  induction l with
  | nil => rfl
  | cons t l ih =>
      rw [List.mapM_cons, ih]
      rfl

theorem decode_encode (l : List ByteString) : decode (encode l) = some l := by
  have hitems : items decodeString (byte ']') (List.intercalate (ascii ",") (l.map encodeString)
      ++ ascii "]") = some (l, []) := by
    refine (items_texts (g := some) (by decide) (by decide) l
      (fun t _ => reads_encodeString t) []).trans ?_
    rw [mapM_some]
    rfl
  rw [encode, decode, if_pos rfl, hitems]

/-- A list that is not empty begins with the quote of its first string. -/
theorem encode_cons (t : ByteString) (l : List ByteString) :
    ∃ rest, encode (t :: l) = ascii "[\"" ++ rest := by
  cases l with
  | nil =>
      refine ⟨t.flatMap escapeByte ++ ascii "\"" ++ ascii "]", ?_⟩
      rw [encode, List.map_singleton, List.intercalate_singleton]
      rfl
  | cons u l =>
      refine ⟨t.flatMap escapeByte ++ ascii "\"" ++ (ascii ","
        ++ List.intercalate (ascii ",") ((u :: l).map encodeString)) ++ ascii "]", ?_⟩
      rw [encode, List.map_cons, List.intercalate_cons_of_ne_nil (by simp), encodeString]
      simp only [List.append_assoc]
      rfl

/-- No string begins with an apostrophe. -/
theorem decode_apostrophe (rest : ByteString) : decode (ascii "['" ++ rest) = none := by
  have hblank : isBlank (byte '\'') = false := by decide
  have hexpect : expect (byte ']') (byte '\'' :: rest) = none := by
    rw [expect, skip_of_stop hblank]
    exact if_neg (by decide)
  have hitems : items decodeString (byte ']') (byte '\'' :: rest) = none := by
    rw [items, hexpect]
    show separated decodeString (byte ']') (rest.length + 1) (byte '\'' :: rest) = none
    rw [separated, skip_of_stop hblank]
    rfl
  have hcons : ascii "['" ++ rest = byte '[' :: byte '\'' :: rest := rfl
  rw [hcons, decode, if_pos rfl, hitems]

theorem hexDigit_ne_zero : ∀ n : Fin 16, LocalStorage.hexDigit n.val ≠ 0 := by
  decide

theorem zero_not_mem_hexByte (b : UInt8) : 0 ∉ LocalStorage.hexByte b := by
  have hhigh := hexDigit_ne_zero ⟨b.toNat / 16, by have := b.toNat_lt; omega⟩
  have hlow := hexDigit_ne_zero ⟨b.toNat % 16, Nat.mod_lt _ (by decide)⟩
  rw [LocalStorage.hexByte, List.mem_cons, List.mem_singleton, not_or]
  exact ⟨hhigh.symm, hlow.symm⟩

theorem zero_not_mem_escapeByte (b : UInt8) : 0 ∉ escapeByte b := by
  rw [escapeByte]
  split
  · decide
  · split
    · decide
    · split
      · exact fun hmem => (List.mem_append.mp hmem).elim (by decide) (zero_not_mem_hexByte b)
      · rename_i hplain
        rw [List.mem_singleton]
        rintro rfl
        exact hplain (by decide)

/-- No NUL byte is written. -/
theorem zero_not_mem_encode (l : List ByteString) : 0 ∉ encode l := by
  have hstring : ∀ t, 0 ∉ encodeString t := by
    intro t hmem
    rw [encodeString, List.mem_append, List.mem_append, List.mem_flatMap] at hmem
    rcases hmem with (hmem | ⟨b, -, hmem⟩) | hmem
    · exact absurd hmem (by decide)
    · exact zero_not_mem_escapeByte b hmem
    · exact absurd hmem (by decide)
  have hlist : 0 ∉ List.intercalate (ascii ",") (l.map encodeString) := by
    induction l with
    | nil => decide
    | cons t l ih =>
        cases l with
        | nil =>
            rw [List.map_singleton, List.intercalate_singleton]
            exact hstring t
        | cons u l =>
            rw [List.map_cons, List.intercalate_cons_of_ne_nil (by simp), List.mem_append,
              List.mem_append]
            exact fun hmem => hmem.elim (fun hmem => hmem.elim (hstring t) (by decide)) ih
  rw [encode, List.mem_cons, List.mem_append, not_or, not_or]
  exact ⟨by decide, hlist, by decide⟩

end JsonLists
