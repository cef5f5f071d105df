import Holdfast.Proofs.Json.Plain

namespace Holdfast.Json
namespace Progress

theorem tokens_head (v : Value) : ∃ t ts, v.tokens = t :: ts ∧ t ≠ .closeArray := by
  cases v <;> simp [Value.tokens]

/-- The items of an array begin as a value does, unless there are none. -/
theorem itemTokens_head (v : Value) (vs : List Value) :
    ∃ t ts, Value.itemTokens (v :: vs) = t :: ts ∧ t ≠ .closeArray := by
  obtain ⟨t, ts, htokens, ht⟩ := tokens_head v
  cases vs with
  | nil => exact ⟨t, ts, htokens, ht⟩
  | cons w vs =>
    refine ⟨t, ts ++ .comma :: Value.itemTokens (w :: vs), ?_, ht⟩
    rw [Value.itemTokens, htokens, List.cons_append]
    simp

mutual

/-- The tokens of a plain value are taken in as that value. -/
theorem foldl_tokens : ∀ (v : Value), v.isPlain = true → ∀ outer,
    v.tokens.foldl step (.value outer) = afterValue outer v
  | .null, _, _ => rfl
  | .bool _, _, _ => rfl
  | .number _, _, _ => rfl
  | .string _, _, _ => rfl
  | .array [] whole, h, outer => by
    rw [Value.isPlain, Bool.and_eq_true] at h
    rw [h.1]
    rfl
  | .array (v :: vs) whole, h, outer => by
    rw [Value.isPlain, Bool.and_eq_true] at h
    obtain ⟨t, ts, htokens, ht⟩ := itemTokens_head v vs
    have hstep : step (.item outer) t = step (.value (.array [] :: outer)) t := by simp [step]
    have hitems := foldl_items (v :: vs) h.2 (List.cons_ne_nil v vs) [] outer
    rw [htokens, List.cons_append, List.foldl_cons, ← hstep] at hitems
    rw [h.1, Value.tokens, htokens, List.cons_append]
    exact hitems
  | .object [] whole, h, outer => by
    rw [Value.isPlain, Bool.and_eq_true] at h
    rw [h.1]
    rfl
  | .object (m :: ms) whole, h, outer => by
    rw [Value.isPlain, Bool.and_eq_true] at h
    rw [h.1]
    exact foldl_members (m :: ms) h.2 (List.cons_ne_nil m ms) [] outer true

theorem foldl_items : ∀ (items : List Value), Value.arePlain items = true → items ≠ [] →
    ∀ before outer, (Value.itemTokens items ++ [Token.closeArray]).foldl step
      (.value (.array before :: outer)) = afterValue outer (.array (before.reverse ++ items) true)
  | [], _, hne, _, _ => absurd rfl hne
  | [v], h, _, before, outer => by
    rw [Value.arePlain, Bool.and_eq_true] at h
    rw [Value.itemTokens, List.foldl_append, foldl_tokens v h.1, ← List.reverse_cons]
    rfl
  | v :: w :: vs, h, _, before, outer => by
    rw [Value.arePlain, Bool.and_eq_true] at h
    have htokens : Value.itemTokens (v :: w :: vs) =
        v.tokens ++ .comma :: Value.itemTokens (w :: vs) := rfl
    have hrest := foldl_items (w :: vs) h.2 (List.cons_ne_nil w vs) (v :: before) outer
    rw [List.reverse_cons, List.append_assoc] at hrest
    rw [htokens, List.append_assoc, List.foldl_append, foldl_tokens v h.1]
    exact hrest

theorem foldl_members : ∀ (members : List (Option String × Value)),
    Value.membersPlain members = true → members ≠ [] → ∀ before outer first,
      (Value.memberTokens members ++ [Token.closeObject]).foldl step (.key outer before first) =
        afterValue outer (.object (before.reverse ++ members) true)
  | [], _, hne, _, _, _ => absurd rfl hne
  | [(k, v)], h, _, before, outer, first => by
    rw [Value.membersPlain, Bool.and_eq_true, Bool.and_eq_true] at h
    have htokens : Value.memberTokens [(k, v)] = .string k :: .colon :: v.tokens := rfl
    have hvalue := foldl_tokens v h.1.2 (.object before k :: outer)
    rw [htokens, ← List.reverse_cons, List.cons_append, List.cons_append, List.foldl_cons,
      List.foldl_cons, List.foldl_append]
    exact congrArg (fun p => step p .closeObject) hvalue
  | (k, v) :: m :: ms, h, _, before, outer, first => by
    rw [Value.membersPlain, Bool.and_eq_true, Bool.and_eq_true] at h
    have htokens : Value.memberTokens ((k, v) :: m :: ms) =
        .string k :: .colon :: (v.tokens ++ .comma :: Value.memberTokens (m :: ms)) := rfl
    have hvalue := foldl_tokens v h.1.2 (.object before k :: outer)
    have hrest := foldl_members (m :: ms) h.2 (List.cons_ne_nil m ms) ((k, v) :: before) outer false
    rw [List.reverse_cons, List.append_assoc] at hrest
    rw [htokens, List.cons_append, List.cons_append, List.foldl_cons, List.foldl_cons,
      List.append_assoc, List.foldl_append]
    exact (congrArg (List.foldl step · _) hvalue).trans hrest

end

end Progress

/-- A plain value is read back from its text. -/
theorem Document.parse_render {v : Value} (h : v.isPlain = true) :
    Document.parse v.render = ⟨some v, true⟩ := by
  rw [Document.parse, Lexer.tokens_render h, Progress.foldl_tokens v h]
  rfl

end Holdfast.Json
