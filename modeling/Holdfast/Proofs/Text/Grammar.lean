import Holdfast.Proofs.Text

namespace Holdfast.Text

/-- Blanks, or nothing at all. -/
def IsGap (cs : List Char) : Prop := ∀ c ∈ cs, isBlank c = true

/-- A text of these words in order, with blanks between any two of them and maybe around them. -/
inductive Spaced : List (List Char) → List Char → Prop
  | nil {gap : List Char} : IsGap gap → Spaced [] gap
  | last {gap word : List Char} : IsGap gap → IsWord word → Spaced [word] (gap ++ word)
  | cons {gap word cs : List Char} {c : Char} {rest : List (List Char)} : IsGap gap →
    IsWord word → isBlank c = true → Spaced rest cs →
      Spaced (word :: rest) (gap ++ (word ++ c :: cs))

theorem words_gap {gap : List Char} (h : IsGap gap) (cs : List Char) :
    words (gap ++ cs) = words cs := by
  induction gap with
  | nil => rfl
  | cons c gap ih =>
    have hrest := ih fun d hd => h d (List.mem_cons_of_mem _ hd)
    exact (words_split [] (h c List.mem_cons_self) (gap ++ cs)).trans hrest

theorem Spaced.words_eq {ws : List (List Char)} {cs : List Char} (h : Spaced ws cs) :
    words cs = ws := by
  induction h with
  | @nil gap hgap =>
    rw [← List.append_nil gap, words_gap hgap]
    rfl
  | last hgap hword => rw [words_gap hgap, words_word hword]
  | cons hgap hword hc _ ih => rw [words_gap hgap, words_append hword hc, ih]

theorem Spaced.isWord {ws : List (List Char)} {cs : List Char} (h : Spaced ws cs) :
    ∀ w ∈ ws, IsWord w := by
  induction h with
  | nil => simp
  | last _ hword => simpa using hword
  | cons _ hword _ _ ih => exact List.forall_mem_cons.mpr ⟨hword, ih⟩

theorem exists_gap (cs : List Char) : ∃ gap core, cs = gap ++ core ∧ IsGap gap ∧
    ∀ c, core.head? = some c → isBlank c = false := by
  refine ⟨cs.takeWhile isBlank, cs.dropWhile isBlank, List.takeWhile_append_dropWhile.symm,
    List.all_eq_true.mp List.all_takeWhile, ?_⟩
  intro c hc
  have := List.head?_dropWhile_not isBlank cs
  simpa [hc] using this

/-- A text that begins with no blank is a word and what follows it, which begins with a blank. -/
theorem exists_word {c : Char} (hc : isBlank c = false) (cs : List Char) :
    ∃ word rest, c :: cs = word ++ rest ∧ IsWord word ∧ ∀ d, rest.head? = some d →
      isBlank d = true := by
  refine ⟨(c :: cs).takeWhile (!isBlank ·), (c :: cs).dropWhile (!isBlank ·),
    List.takeWhile_append_dropWhile.symm, ⟨?_, ?_⟩, ?_⟩
  · simp [hc]
  · intro d hd
    simpa using List.all_eq_true.mp List.all_takeWhile d hd
  · intro d hd
    have := List.head?_dropWhile_not (!isBlank ·) (c :: cs)
    simpa [hd] using this

/-- Every text consists of its words and the blanks around them. -/
theorem spaced_words (cs : List Char) : Spaced (words cs) cs := by
  induction hn : cs.length using Nat.strong_induction_on generalizing cs with
  | _ n ih =>
    subst hn
    obtain ⟨gap, core, hcs, hgap, hcore⟩ := exists_gap cs
    rw [hcs, words_gap hgap]
    cases core with
    | nil =>
      rw [List.append_nil]
      exact .nil hgap
    | cons c core =>
      obtain ⟨word, rest, hword, hisWord, hrest⟩ := exists_word (hcore c rfl) core
      rw [hword]
      cases rest with
      | nil =>
        rw [List.append_nil, words_word hisWord]
        exact .last hgap hisWord
      | cons d rest =>
        have hd := hrest d rfl
        have hshort : rest.length < cs.length := by
          rw [hcs, hword]
          simp only [List.length_append, List.length_cons]
          omega
        rw [words_append hisWord hd]
        exact .cons hgap hisWord hd (ih _ hshort rest rfl)

theorem words_eq_iff {ws : List (List Char)} {cs : List Char} : words cs = ws ↔ Spaced ws cs :=
  ⟨fun h => h ▸ spaced_words cs, Spaced.words_eq⟩

/-- `core` is what a text says, and blanks stand around it. -/
structure Trims (cs core : List Char) : Prop where
  around : ∃ before after, IsGap before ∧ IsGap after ∧ cs = before ++ (core ++ after)
  start : ∀ c, core.head? = some c → isBlank c = false
  finish : ∀ c, core.getLast? = some c → isBlank c = false

theorem trims_trim (cs : List Char) : Trims cs (trim cs) where
  around := by
    refine ⟨cs.takeWhile isBlank, (trimStart cs).rtakeWhile isBlank,
      List.all_eq_true.mp List.all_takeWhile, fun c => List.mem_rtakeWhile_imp, ?_⟩
    have hend : trim cs ++ (trimStart cs).rtakeWhile isBlank = trimStart cs :=
      List.rdropWhile_append_rtakeWhile
    rw [hend]
    exact List.takeWhile_append_dropWhile.symm
  start := fun _ => isBlank_head_trim
  finish := by
    intro c hc
    have hhead := List.head?_dropWhile_not isBlank (trimStart cs).reverse
    rw [trim, trimEnd, List.getLast?_reverse] at hc
    simpa [hc] using hhead

theorem Trims.trim_eq {cs core : List Char} (h : Trims cs core) : trim cs = core := by
  obtain ⟨before, after, hbefore, hafter, rfl⟩ := h.around
  have hstart : trimStart (before ++ (core ++ after)) = trimStart (core ++ after) :=
    List.dropWhile_append_of_pos hbefore
  have hend : trimEnd (core ++ after) = trimEnd core := by
    have hreverse : ∀ c ∈ after.reverse, isBlank c = true := fun c hc =>
      hafter c (List.mem_reverse.mp hc)
    rw [trimEnd, List.reverse_append, List.dropWhile_append_of_pos hreverse]
    rfl
  rw [trim, hstart]
  cases hcore : core with
  | nil =>
    have hnone : trimStart after = [] := List.dropWhile_eq_nil_iff.mpr hafter
    rw [List.nil_append, hnone]
    rfl
  | cons c rest =>
    rw [← hcore]
    have hsame : trimStart (core ++ after) = core ++ after := by
      apply trimStart_eq_self
      intro d hd
      rw [hcore, List.cons_append] at hd
      exact h.start d (by rw [hcore]; exact hd)
    have hcoreSame : trim core = core := trim_eq_self h.start h.finish
    rw [trim, trimStart_eq_self h.start] at hcoreSame
    rw [hsame, hend, hcoreSame]

theorem trim_eq_iff {cs core : List Char} : trim cs = core ↔ Trims cs core :=
  ⟨fun h => h ▸ trims_trim cs, Trims.trim_eq⟩

/-- Digits that stand for `n`, maybe with a plus sign; zeros may come first. -/
def IsNumeral (cs : List Char) (n : Nat) : Prop :=
  ∃ digits, digits ≠ [] ∧ (∀ c ∈ digits, c.isDigit = true) ∧ Nat.ofDigitChars 10 digits 0 = n ∧
    (cs = digits ∨ cs = '+' :: digits)

theorem readDigits?_eq_some_iff {acc n : Nat} {cs : List Char} : readDigits? acc cs = some n ↔
    (∀ c ∈ cs, c.isDigit = true) ∧ Nat.ofDigitChars 10 cs acc = n := by
  constructor
  · intro h
    have hdigits : ∀ c ∈ cs, c.isDigit = true := by
      induction cs generalizing acc with
      | nil => simp
      | cons c cs ih =>
        rw [readDigits?, Option.bind_eq_some_iff] at h
        obtain ⟨d, hd, hrest⟩ := h
        unfold digitValue? at hd
        split at hd
        · next hc => exact List.forall_mem_cons.mpr ⟨isDigit_iff.mpr hc, ih hrest⟩
        · cases hd
    rw [readDigits?_eq hdigits, Option.some.injEq] at h
    exact ⟨hdigits, h⟩
  · rintro ⟨hdigits, rfl⟩
    exact readDigits?_eq hdigits acc

theorem readNat?_eq_some_iff {n : Nat} {cs : List Char} : readNat? cs = some n ↔
    cs ≠ [] ∧ (∀ c ∈ cs, c.isDigit = true) ∧ Nat.ofDigitChars 10 cs 0 = n := by
  cases cs with
  | nil => simp [readNat?]
  | cons c cs =>
    rw [readNat?, readDigits?_eq_some_iff]
    · simp
    · exact List.cons_ne_nil c cs

theorem readUpTo?_eq_some_iff {limit n : Nat} {cs : List Char} :
    readUpTo? limit cs = some n ↔ IsNumeral cs n ∧ n ≤ limit := by
  have hplus : ∀ {digits}, (∀ c ∈ digits, c.isDigit = true) → ∀ rest, digits ≠ '+' :: rest := by
    rintro _ hdigits rest rfl
    exact absurd (hdigits '+' List.mem_cons_self) (by decide)
  unfold readUpTo? IsNumeral
  split
  · next rest =>
    rw [Option.filter_eq_some_iff, readNat?_eq_some_iff, decide_eq_true_eq]
    constructor
    · rintro ⟨⟨hne, hdigits, hvalue⟩, hle⟩
      exact ⟨⟨rest, hne, hdigits, hvalue, .inr rfl⟩, hle⟩
    · rintro ⟨⟨digits, hne, hdigits, hvalue, hcs | hcs⟩, hle⟩
      · exact absurd hcs.symm (hplus hdigits rest)
      · cases hcs
        exact ⟨⟨hne, hdigits, hvalue⟩, hle⟩
  · next hno =>
    rw [Option.filter_eq_some_iff, readNat?_eq_some_iff, decide_eq_true_eq]
    constructor
    · rintro ⟨⟨hne, hdigits, hvalue⟩, hle⟩
      exact ⟨⟨cs, hne, hdigits, hvalue, .inl rfl⟩, hle⟩
    · rintro ⟨⟨digits, hne, hdigits, hvalue, hcs | hcs⟩, hle⟩
      · cases hcs
        exact ⟨⟨hne, hdigits, hvalue⟩, hle⟩
      · exact absurd hcs (hno digits)

end Holdfast.Text
