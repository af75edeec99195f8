import VHono.ByteString

/-! # UTF-8

    A character is one byte below 80, or a leading byte and the bytes due
    after it, of which the first may have a narrower range (no overlong forms,
    no surrogates, nothing above 10FFFF). -/

namespace Utf8

/-- Within a character: how many bytes are due, and the range of the next. -/
structure Pending where
  due  : Nat
  low  : UInt8
  high : UInt8
  tail : 0x80 ≤ low

def between : Pending := ⟨0, 0x80, 0xBF, by decide⟩

/-- What a leading byte begins. -/
def lead (b : UInt8) : Option Pending :=
  if b < 0x80 then some between
  else if 0xC2 ≤ b ∧ b ≤ 0xDF then some ⟨1, 0x80, 0xBF, by decide⟩
  else if b = 0xE0 then some ⟨2, 0xA0, 0xBF, by decide⟩
  else if b = 0xED then some ⟨2, 0x80, 0x9F, by decide⟩
  else if 0xE1 ≤ b ∧ b ≤ 0xEF then some ⟨2, 0x80, 0xBF, by decide⟩
  else if b = 0xF0 then some ⟨3, 0x90, 0xBF, by decide⟩
  else if 0xF1 ≤ b ∧ b ≤ 0xF3 then some ⟨3, 0x80, 0xBF, by decide⟩
  else if b = 0xF4 then some ⟨3, 0x80, 0x8F, by decide⟩
  else none

def step (p : Pending) (b : UInt8) : Option Pending :=
  match p.due with
  | 0 => lead b
  | due + 1 => if p.low ≤ b ∧ b ≤ p.high then some ⟨due, 0x80, 0xBF, by decide⟩ else none

def run : Pending → ByteString → Option Pending
  | p, [] => some p
  | p, b :: s => (step p b).bind (fun q => run q s)

/-- The bytes are characters, the last one complete. -/
def valid (s : ByteString) : Bool := (run between s).any (fun p => p.due == 0)

theorem run_append (s t : ByteString) (p : Pending) :
    run p (s ++ t) = (run p s).bind (fun q => run q t) := by
  induction s generalizing p with
  | nil => rfl
  | cons b s ih =>
      show (step p b).bind (fun q => run q (s ++ t)) = _
      rw [funext ih, run, Option.bind_assoc]

theorem step_ascii {b : UInt8} (hb : b < 0x80) (p : Pending) :
    step p b = if p.due = 0 then some between else none := by
  rw [step.eq_def]
  split
  · rename_i hdue
    rw [lead, if_pos hb, if_pos hdue]
  · rename_i due hdue
    have hlow : ¬ p.low ≤ b := by
      have htail := p.tail
      grind
    rw [if_neg (fun h => hlow h.1), if_neg (by omega)]

/-- An ASCII byte stands between characters. -/
theorem valid_append_ascii {b : UInt8} (hb : b < 0x80) (s t : ByteString) :
    valid (s ++ b :: t) = (valid s && valid t) := by
  rw [valid, run_append, valid]
  cases run between s with
  | none => rfl
  | some p =>
      rw [Option.bind_some, run, step_ascii hb]
      by_cases hdue : p.due = 0
      · simp [hdue, valid]
      · simp [hdue]

theorem valid_cons_ascii {b : UInt8} (hb : b < 0x80) (t : ByteString) : valid (b :: t) = valid t :=
  valid_append_ascii hb [] t

theorem valid_ascii {s : ByteString} (hs : ∀ b ∈ s, b < 0x80) : valid s = true := by
  induction s with
  | nil => rfl
  | cons b s ih =>
      rw [valid_cons_ascii (hs b (List.mem_cons_self ..))]
      exact ih (fun c hc => hs c (List.mem_cons_of_mem _ hc))

/-- Bytes may be replaced by texts that do the same to what is due. -/
theorem run_flatMap {f : UInt8 → ByteString} (hf : ∀ p b, run p (f b) = step p b) (s : ByteString)
    (p : Pending) : run p (s.flatMap f) = run p s := by
  induction s generalizing p with
  | nil => rfl
  | cons b s ih =>
      rw [List.flatMap_cons, run_append, hf, funext ih]
      rfl

/-- Texts with an ASCII byte between them. -/
theorem valid_intercalate {b : UInt8} (hb : b < 0x80) (ts : List ByteString) :
    valid (List.intercalate [b] ts) = ts.all valid := by
  induction ts with
  | nil => rfl
  | cons t ts ih =>
      cases ts with
      | nil => rw [List.intercalate_singleton, List.all_cons, List.all_nil, Bool.and_true]
      | cons t' ts =>
          rw [List.intercalate_cons_cons, List.append_assoc, List.singleton_append,
            valid_append_ascii hb, ih]
          rfl

end Utf8
