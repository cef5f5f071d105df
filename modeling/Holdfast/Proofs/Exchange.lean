import Holdfast.Exchange
import Mathlib.Tactic.Common

namespace Holdfast.Exchange

variable {ι : Type} {ρ : ι → Type}

/-- With these requests and answers, in order, a conversation comes to this result. -/
inductive Goes : Exchange ρ α → List (Sigma ρ) → α → Prop
  | done (a : α) : Goes (.done a) [] a
  | send {request : ι} {next : ρ request → Exchange ρ α} {answer : ρ request}
      {lines : List (Sigma ρ)} {a : α} (rest : Goes (next answer) lines a) :
      Goes (.send request next) (⟨request, answer⟩ :: lines) a
  | pause {ms : Nat} {e : Exchange ρ α} {lines : List (Sigma ρ)} {a : α} (rest : Goes e lines a) :
      Goes (.pause ms e) lines a

theorem Goes.of_bind {e : Exchange ρ α} {f : α → Exchange ρ β} {lines : List (Sigma ρ)} {b : β}
    (h : Goes (e >>= f) lines b) :
    ∃ first second a, lines = first ++ second ∧ Goes e first a ∧ Goes (f a) second b := by
  induction e generalizing lines with
  | done a => exact ⟨[], lines, a, rfl, .done a, h⟩
  | send request next ih =>
    cases h with
    | @send _ _ answer lines _ rest =>
      obtain ⟨first, second, a, rfl, he, hf⟩ := ih answer rest
      exact ⟨⟨request, answer⟩ :: first, second, a, rfl, .send he, hf⟩
  | pause ms e ih =>
    cases h with
    | pause rest =>
      obtain ⟨first, second, a, hl, he, hf⟩ := ih rest
      exact ⟨first, second, a, hl, .pause he, hf⟩

theorem run_bind {σ : Type} (serve : σ → (request : ι) → σ × ρ request) (e : Exchange ρ α)
    (f : α → Exchange ρ β) (s : σ) :
    (e >>= f).run serve s =
      (((f (e.run serve s).2.2).run serve (e.run serve s).1).1,
        (e.run serve s).2.1 + ((f (e.run serve s).2.2).run serve (e.run serve s).1).2.1,
        ((f (e.run serve s).2.2).run serve (e.run serve s).1).2.2) := by
  induction e generalizing s with
  | done a => simp [run, Bind.bind, bind]
  | send request next ih => exact ih _ _
  | pause ms e ih =>
    have hrest : (e.bind f).run serve s = _ := ih s
    simp only [run, Bind.bind, bind, hrest, Nat.add_assoc]

theorem Goes.of_done {a b : α} {lines : List (Sigma ρ)} (h : Goes (.done a) lines b) :
    lines = [] ∧ b = a := by
  cases h
  exact ⟨rfl, rfl⟩

theorem Goes.of_ask {request : ι} {lines : List (Sigma ρ)} {answer : ρ request}
    (h : Goes (ask request) lines answer) : lines = [⟨request, answer⟩] := by
  cases h with
  | send rest => obtain ⟨rfl, rfl⟩ := rest.of_done; rfl

/-- A conversation with a server that keeps a record of its requests goes by that record. -/
theorem goes_of_run {σ τ : Type} {serve : σ → (request : ι) → σ × ρ request}
    {record : σ → List τ} {line : τ → Sigma ρ}
    (hr : ∀ s request, ∃ entry, record (serve s request).1 = record s ++ [entry] ∧
      line entry = ⟨request, (serve s request).2⟩)
    (e : Exchange ρ α) (s : σ) :
    ∃ entries, record (e.run serve s).1 = record s ++ entries ∧
      Goes e (entries.map line) (e.run serve s).2.2 := by
  induction e generalizing s with
  | done a => exact ⟨[], by simp [run], .done a⟩
  | send request next ih =>
    obtain ⟨entry, hs, hl⟩ := hr s request
    obtain ⟨entries, ht, hg⟩ := ih (serve s request).2 (serve s request).1
    refine ⟨entry :: entries, ?_, ?_⟩
    · simp only [run, ht, hs, List.append_assoc, List.singleton_append]
    · rw [List.map_cons, hl]
      exact .send hg
  | pause ms e ih =>
    obtain ⟨entries, ht, hg⟩ := ih s
    exact ⟨entries, ht, .pause hg⟩

/-- A server that gives whatever answers it likes, with all that was said so far. -/
def speak (reply : List (Sigma ρ) → (request : ι) → ρ request) (lines : List (Sigma ρ))
    (request : ι) : List (Sigma ρ) × ρ request :=
  (lines ++ [⟨request, reply lines request⟩], reply lines request)

/-- What is said in a conversation. -/
def spoken (reply : List (Sigma ρ) → (request : ι) → ρ request) (e : Exchange ρ α) :
    List (Sigma ρ) :=
  (e.run (speak reply) []).1

theorem goes_of_speak (reply : List (Sigma ρ) → (request : ι) → ρ request) (e : Exchange ρ α) :
    Goes e (spoken reply e) (e.run (speak reply) []).2.2 := by
  have hsays : ∀ (lines : List (Sigma ρ)) (request : ι), ∃ entry : Sigma ρ,
      id (speak reply lines request).1 = id lines ++ [entry] ∧
        id entry = ⟨request, (speak reply lines request).2⟩ := fun _ _ => ⟨_, rfl, rfl⟩
  obtain ⟨lines, hl, hgoes⟩ := goes_of_run hsays e []
  rw [List.map_id] at hgoes
  rwa [show spoken reply e = lines from hl]

end Holdfast.Exchange
