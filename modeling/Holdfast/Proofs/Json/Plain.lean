import Holdfast.Json.Render
import Mathlib.Tactic.IntervalCases

namespace Holdfast.Json

/-- A number that is read back from its characters. -/
def Number.isProper (n : Number) : Bool :=
  decide (Number.ofChars? n.toChars = some n) && n.toChars.all Lexer.isNumeric &&
    n.toChars.head?.any fun c => Number.isDigit c || c = '-'

namespace Value

mutual

/-- Nothing is missing of the value: its strings are text, its numbers proper, and it is whole with
all that it holds. -/
def isPlain : Value → Bool
  | null | bool _ => true
  | number n => n.isProper
  | string s => s.isSome
  | array items whole => whole && arePlain items
  | object members whole => whole && membersPlain members

def arePlain : List Value → Bool
  | [] => true
  | v :: vs => v.isPlain && arePlain vs

def membersPlain : List (Option String × Value) → Bool
  | [] => true
  | (key, v) :: ms => key.isSome && v.isPlain && membersPlain ms

end

mutual

/-- The tokens of the value without blanks. -/
def tokens : Value → List Token
  | null => [.null]
  | bool b => [.bool b]
  | number n => [.number n]
  | string s => [.string s]
  | array items _ => .openArray :: (itemTokens items ++ [.closeArray])
  | object members _ => .openObject :: (memberTokens members ++ [.closeObject])

def itemTokens : List Value → List Token
  | [] => []
  | [v] => v.tokens
  | v :: vs => v.tokens ++ .comma :: itemTokens vs

def memberTokens : List (Option String × Value) → List Token
  | [] => []
  | [(k, v)] => .string k :: .colon :: v.tokens
  | (k, v) :: ms => .string k :: .colon :: (v.tokens ++ .comma :: memberTokens ms)

end

end Value

namespace Lexer

/-- The lexer has these tokens once the next one begins or the text ends. -/
structure Settles (l : Lexer) (ts : List Token) : Prop where
  step : ∀ c, c = ',' ∨ c = ':' ∨ c = ']' ∨ c = '\x7d' → l.step c = Lexer.start ⟨ts, .between⟩ c
  finish : l.finish = ts.reverse

theorem settles_between (ts : List Token) : Settles ⟨ts, .between⟩ ts :=
  ⟨fun _ _ => rfl, rfl⟩

@[simp]
theorem start_comma (ts : List Token) : start ⟨ts, .between⟩ ',' = ⟨.comma :: ts, .between⟩ := rfl

@[simp]
theorem start_colon (ts : List Token) : start ⟨ts, .between⟩ ':' = ⟨.colon :: ts, .between⟩ := rfl

/-- A code unit that is no surrogate stands for a character by itself. -/
theorem assemble?_unit {n : Nat} (hhigh : isHighSurrogate n = false)
    (hlow : isLowSurrogate n = false) (ps : List Piece) :
    assemble? (.unit n :: ps) = (assemble? ps).map (Char.ofNat n :: ·) := by
  rw [assemble?.eq_def]
  simp only [hhigh, hlow]
  rfl

/-- A control character without a name is read back from its four digits. -/
theorem foldl_hexadecimal (ts : List Token) (read : List Piece) {n : Nat} (h : n < 0x20) :
    (Text.hexadecimal 4 n).foldl step ⟨ts, .hex read 4 0⟩ = ⟨ts, .string (.unit n :: read)⟩ := by
  interval_cases n <;> rfl

/-- An escape is read as one piece, which stands for the character. -/
theorem foldl_escape (ts : List Token) (read : List Piece) (c : Char) :
    ∃ p, (escape c).foldl step ⟨ts, .string read⟩ = ⟨ts, .string (p :: read)⟩ ∧
      ∀ ps, assemble? (p :: ps) = (assemble? ps).map (c :: ·) := by
  unfold escape
  split
  case h_8 hquote hslash _ _ _ _ _ =>
    split
    · next hlow =>
      refine ⟨.unit c.toNat, ?_, ?_⟩
      · rw [List.foldl_append]
        exact foldl_hexadecimal ts read hlow
      · intro ps
        have hhigh : isHighSurrogate c.toNat = false := by
          simp only [isHighSurrogate, Bool.and_eq_false_iff, decide_eq_false_iff_not]
          omega
        have hlow' : isLowSurrogate c.toNat = false := by
          simp only [isLowSurrogate, Bool.and_eq_false_iff, decide_eq_false_iff_not]
          omega
        rw [assemble?_unit hhigh hlow', Char.ofNat_toNat]
    · next hlow =>
      refine ⟨.char c, ?_, fun _ => rfl⟩
      have hquote' : c ≠ '"' := hquote
      have hslash' : c ≠ '\\' := hslash
      simp [step, hquote', hslash', hlow]
  all_goals exact ⟨.char _, rfl, fun _ => rfl⟩

theorem foldl_escapes (ts : List Token) (read : List Piece) (cs : List Char) :
    ∃ ps, (cs.flatMap escape).foldl step ⟨ts, .string read⟩ = ⟨ts, .string (ps.reverse ++ read)⟩ ∧
      assemble? ps = some cs := by
  induction cs generalizing read with
  | nil => exact ⟨[], rfl, rfl⟩
  | cons c cs ih =>
    obtain ⟨p, hp, hstands⟩ := foldl_escape ts read c
    obtain ⟨ps, hps, hcs⟩ := ih (p :: read)
    refine ⟨p :: ps, ?_, ?_⟩
    · rw [List.flatMap_cons, List.foldl_append, hp, hps]
      simp
    · rw [hstands, hcs]
      rfl

theorem foldl_renderString (ts : List Token) (s : String) :
    (renderString s).foldl step ⟨ts, .between⟩ = ⟨.string (some s) :: ts, .between⟩ := by
  obtain ⟨ps, hps, hcs⟩ := foldl_escapes ts [] s.toList
  have hstart : step ⟨ts, .between⟩ '"' = ⟨ts, .string []⟩ := rfl
  rw [renderString, List.cons_append, List.foldl_cons, hstart, List.foldl_append, hps]
  simp [step, emit, hcs, String.ofList_toList]

theorem foldl_number (ts : List Token) (read : List Char) {cs : List Char}
    (h : cs.all isNumeric = true) :
    cs.foldl step ⟨ts, .number read⟩ = ⟨ts, .number (cs.reverse ++ read)⟩ := by
  induction cs generalizing read with
  | nil => rfl
  | cons c cs ih =>
    rw [List.all_cons, Bool.and_eq_true] at h
    have hstep : step ⟨ts, .number read⟩ c = ⟨ts, .number (c :: read)⟩ := by simp [step, h.1]
    rw [List.foldl_cons, hstep, ih _ h.2]
    simp

theorem start_number (ts : List Token) {c : Char} (h : (Number.isDigit c || c = '-') = true) :
    start ⟨ts, .between⟩ c = ⟨ts, .number [c]⟩ := by
  have hne : ∀ d, (Number.isDigit d || d = '-') = false → c ≠ d := by
    rintro d hd rfl
    exact absurd (h.symm.trans hd) (by decide)
  have hspace : isSpace c = false := by
    simp [isSpace, hne ' ' (by decide), hne '\n' (by decide), hne '\t' (by decide),
      hne '\r' (by decide)]
  unfold start
  split
  case h_8 => simp only [hspace, h, Bool.false_eq_true, if_false, if_true]
  all_goals exact absurd rfl (hne _ (by decide))

/-- A number that has been read counts as soon as something else follows. -/
theorem settles_number {n : Number} {read : List Char} (h : Number.ofChars? read.reverse = some n)
    (ts : List Token) : Settles ⟨ts, .number read⟩ (.number n :: ts) := by
  have hend : endNumber ⟨ts, .number read⟩ read = ⟨.number n :: ts, .between⟩ := by
    simp [endNumber, h, emit]
  refine ⟨?_, ?_⟩
  · rintro c (rfl | rfl | rfl | rfl) <;> simp [step, isNumeric, Number.isDigit, hend, restart]
  · simp [finish, hend]

theorem number_settles {n : Number} (h : n.isProper = true) (ts : List Token) :
    Settles (n.toChars.foldl step ⟨ts, .between⟩) (.number n :: ts) := by
  simp only [Number.isProper, Bool.and_eq_true, decide_eq_true_eq] at h
  obtain ⟨⟨hback, hall⟩, hhead⟩ := h
  cases hcs : n.toChars with
  | nil => simp [hcs] at hhead
  | cons c cs =>
    rw [hcs] at hback hall hhead
    rw [List.all_cons, Bool.and_eq_true] at hall
    have hstart : step ⟨ts, .between⟩ c = ⟨ts, .number [c]⟩ := start_number ts hhead
    rw [List.foldl_cons, hstart, foldl_number ts [c] hall.2]
    exact settles_number (by simpa using hback) ts

theorem settles_word {t : Token} {read : List Char} {ts : List Token}
    (h : endWord ⟨ts, .word read⟩ read = ⟨t :: ts, .between⟩) :
    Settles ⟨ts, .word read⟩ (t :: ts) := by
  refine ⟨?_, ?_⟩
  · rintro c (rfl | rfl | rfl | rfl) <;> simp [step, isLetter, h, restart]
  · simp [finish, h]

/-- What follows a value does not change how the value is read. -/
theorem Settles.foldl_cons {l : Lexer} {ts : List Token} (h : Settles l ts) {c : Char}
    (hc : c = ',' ∨ c = ':' ∨ c = ']' ∨ c = '\x7d') (cs : List Char) :
    (c :: cs).foldl Lexer.step l = cs.foldl Lexer.step (Lexer.start ⟨ts, .between⟩ c) := by
  rw [List.foldl_cons, h.step c hc]

mutual

/-- A plain value is read as its tokens. -/
theorem value_settles : ∀ (v : Value), v.isPlain = true → ∀ ts,
    Settles (v.toChars.foldl step ⟨ts, .between⟩) (v.tokens.reverse ++ ts)
  | .null, _, _ => settles_word rfl
  | .bool true, _, _ => settles_word rfl
  | .bool false, _, _ => settles_word rfl
  | .number n, h, ts => by
    simp only [Value.isPlain] at h
    exact number_settles h ts
  | .string s, h, ts => by
    simp only [Value.isPlain] at h
    obtain ⟨s, rfl⟩ := Option.isSome_iff_exists.mp h
    simp only [Value.toChars, Option.getD_some, foldl_renderString]
    exact settles_between _
  | .array items whole, h, ts => by
    simp only [Value.isPlain, Bool.and_eq_true] at h
    have hitems := items_settle items h.2 (.openArray :: ts)
    have hstart : step ⟨ts, .between⟩ '[' = ⟨.openArray :: ts, .between⟩ := rfl
    rw [Value.toChars, List.cons_append, List.foldl_cons, hstart, List.foldl_append,
      hitems.foldl_cons (by simp)]
    simp only [Value.tokens, List.reverse_cons, List.reverse_append, List.append_assoc]
    exact settles_between _
  | .object members whole, h, ts => by
    simp only [Value.isPlain, Bool.and_eq_true] at h
    have hmembers := members_settle members h.2 (.openObject :: ts)
    have hstart : step ⟨ts, .between⟩ '\x7b' = ⟨.openObject :: ts, .between⟩ := rfl
    rw [Value.toChars, List.cons_append, List.foldl_cons, hstart, List.foldl_append,
      hmembers.foldl_cons (by simp)]
    simp only [Value.tokens, List.reverse_cons, List.reverse_append, List.append_assoc]
    exact settles_between _

theorem items_settle : ∀ (vs : List Value), Value.arePlain vs = true → ∀ ts,
    Settles ((Value.itemChars vs).foldl step ⟨ts, .between⟩) ((Value.itemTokens vs).reverse ++ ts)
  | [], _, ts => settles_between ts
  | [v], h, ts => by
    simp only [Value.arePlain, Bool.and_true] at h
    exact value_settles v h ts
  | v :: w :: vs, h, ts => by
    rw [Value.arePlain, Bool.and_eq_true] at h
    have hfirst := value_settles v h.1 ts
    have hrest := items_settle (w :: vs) h.2 (.comma :: (v.tokens.reverse ++ ts))
    have hchars : Value.itemChars (v :: w :: vs) =
        v.toChars ++ ',' :: Value.itemChars (w :: vs) := rfl
    have htokens : Value.itemTokens (v :: w :: vs) =
        v.tokens ++ .comma :: Value.itemTokens (w :: vs) := rfl
    rw [hchars, htokens, List.foldl_append, hfirst.foldl_cons (by simp), start_comma]
    simpa using hrest

theorem members_settle : ∀ (ms : List (Option String × Value)), Value.membersPlain ms = true →
    ∀ ts, Settles ((Value.memberChars ms).foldl step ⟨ts, .between⟩)
      ((Value.memberTokens ms).reverse ++ ts)
  | [], _, ts => settles_between ts
  | [(k, v)], h, ts => by
    simp only [Value.membersPlain, Bool.and_true, Bool.and_eq_true] at h
    obtain ⟨k, rfl⟩ := Option.isSome_iff_exists.mp h.1
    have hvalue := value_settles v h.2 (.colon :: .string (some k) :: ts)
    rw [Value.memberChars, Option.getD_some, List.foldl_append, foldl_renderString,
      (settles_between _).foldl_cons (by simp), start_colon]
    simpa [Value.memberTokens] using hvalue
  | (k, v) :: m :: ms, h, ts => by
    rw [Value.membersPlain, Bool.and_eq_true, Bool.and_eq_true] at h
    obtain ⟨k, rfl⟩ := Option.isSome_iff_exists.mp h.1.1
    have hvalue := value_settles v h.1.2 (.colon :: .string (some k) :: ts)
    have hrest := members_settle (m :: ms) h.2
      (.comma :: (v.tokens.reverse ++ .colon :: .string (some k) :: ts))
    have hchars : Value.memberChars ((some k, v) :: m :: ms) =
        renderString k ++ ':' :: (v.toChars ++ ',' :: Value.memberChars (m :: ms)) :=
      List.append_assoc ..
    have htokens : Value.memberTokens ((some k, v) :: m :: ms) =
        .string (some k) :: .colon :: (v.tokens ++ .comma :: Value.memberTokens (m :: ms)) := rfl
    rw [hchars, htokens, List.foldl_append, foldl_renderString,
      (settles_between _).foldl_cons (by simp), start_colon, List.foldl_append,
      hvalue.foldl_cons (by simp), start_comma]
    simpa using hrest

end

/-- The text of a plain value has the tokens of the value. -/
theorem tokens_render {v : Value} (h : v.isPlain = true) : Json.tokens v.render = v.tokens := by
  rw [Json.tokens, Value.render, String.toList_ofList, (value_settles v h []).finish]
  simp

end Lexer
end Holdfast.Json
