import DancingLinks.Proofs.Text.Digits

/-!
# How texts are put together

What a text is made of, said without reading it: words with blanks between them (`Splits`), a name with
blanks around it (`Trims`), two texts with a separator between them (`CutsInto`), a sign and digits
(`Integer.Numeral`). The functions that read a text find exactly these parts (`splits_iff`, `trims_iff`,
`CutsInto.cut_eq`, `Integer.read_eq_ok_iff`), so there is one way only to put a text together.
-/

namespace DancingLinks.Text

variable {cs ds rest word : List Char} {ws : List (List Char)} {sep : Char}
  {text name before after : String} {names : List String}

/-- The text holds blanks only. -/
def Blanks (cs : List Char) : Prop := ∀ c ∈ cs, isBlank c = true

/-! ## Words -/

/-- The text is made of some words, each after blanks or at the start, and before a blank or at the end.
-/
inductive SplitsInto : List Char → List (List Char) → Prop
  /-- There is no word in blanks. -/
  | none {cs : List Char} : Blanks cs → SplitsInto cs []
  /-- Before the first word are only blanks. -/
  | word {blanks word rest : List Char} {words : List (List Char)} :
      Blanks blanks → Solid word → (∀ b ∈ rest.head?, isBlank b = true) → SplitsInto rest words →
      SplitsInto (blanks ++ word ++ rest) (word :: words)

/-- Blanks before a text do not count. -/
theorem wordChars_blanks_append (blanks : Blanks ds) : wordChars (ds ++ cs) = wordChars cs := by
  induction ds with
  | nil => rfl
  | cons d ds ih =>
    obtain ⟨first, others⟩ := List.forall_mem_cons.1 blanks
    rw [List.cons_append, wordChars_cons_blank first, ih others]

/-- The words of a text are those that it is made of. -/
theorem SplitsInto.wordChars_eq (splits : SplitsInto cs ws) : wordChars cs = ws := by
  induction splits with
  | @none cs blanks =>
    have words : wordChars (cs ++ []) = wordChars [] := wordChars_blanks_append blanks
    rw [List.append_nil] at words
    exact words
  | word blanks solid ends _ ih =>
    rw [List.append_assoc, wordChars_blanks_append blanks, wordChars_append solid ends, ih]

/-- One more blank makes no word. -/
theorem SplitsInto.cons {b : Char} (splits : SplitsInto cs ws) (blank : isBlank b = true) :
    SplitsInto (b :: cs) ws := by
  cases splits with
  | none blanks => exact .none (List.forall_mem_cons.2 ⟨blank, blanks⟩)
  | @word front _ _ _ blanks solid ends splits =>
    have more : Blanks (b :: front) := List.forall_mem_cons.2 ⟨blank, blanks⟩
    exact .word more solid ends splits

/-- Every text is made of its words. -/
theorem splitsInto_wordChars (cs : List Char) : SplitsInto cs (wordChars cs) := by
  induction length : cs.length using Nat.strongRecOn generalizing cs with
  | ind n ih =>
    cases cs with
    | nil => exact .none nofun
    | cons c cs =>
      cases first : isBlank c with
      | true =>
        rw [wordChars_cons_blank first]
        exact (ih cs.length (by rw [← length]; exact Nat.lt_succ_self _) cs rfl).cons first
      | false =>
        -- The word goes on to the first blank, and what follows is shorter.
        have solid : Solid ([c] ++ cs.takeWhile (!isBlank ·)) :=
          ⟨List.cons_ne_nil _ _, List.forall_mem_cons.2 ⟨first, fun d mem => isBlank_of_mem_takeWhile mem⟩⟩
        have shorter : (cs.dropWhile (!isBlank ·)).length < n := by
          rw [← length]
          exact Nat.lt_succ_of_le (List.dropWhile_suffix _).length_le
        have whole : c :: cs
            = [] ++ ([c] ++ cs.takeWhile (!isBlank ·)) ++ cs.dropWhile (!isBlank ·) := by
          rw [List.nil_append, List.append_assoc, List.takeWhile_append_dropWhile]
          rfl
        have words : wordChars (c :: cs)
            = ([c] ++ cs.takeWhile (!isBlank ·)) :: wordChars (cs.dropWhile (!isBlank ·)) := by
          have alone : Solid [c] := ⟨List.cons_ne_nil _ _, by simpa using first⟩
          exact wordChars_solid_append alone cs
        rw [words]
        conv => arg 1; rw [whole]
        exact .word nofun solid (isBlank_of_head?_dropWhile cs) (ih _ shorter _ rfl)

/-- The text is made of some words. -/
def Splits (text : String) (names : List String) : Prop :=
  SplitsInto text.toList (names.map String.toList)

/-- The words of a text are those that it is made of. -/
theorem splits_iff : Splits text names ↔ words text = names := by
  constructor
  · intro splits
    rw [words, splits.wordChars_eq, List.map_map]
    exact (List.map_congr_left fun name _ => String.ofList_toList).trans names.map_id
  · rintro rfl
    have back : (words text).map String.toList = wordChars text.toList := by
      rw [words, List.map_map]
      exact (List.map_congr_left fun word _ => String.toList_ofList).trans (List.map_id _)
    rw [Splits, back]
    exact splitsInto_wordChars text.toList

/-! ## Names with blanks around them -/

/-- The text is a name with blanks around it. The name neither starts nor ends with a blank. -/
structure Trims (text name : String) : Prop where
  parts : ∃ front back, text.toList = front ++ name.toList ++ back ∧ Blanks front ∧ Blanks back
  start : ∀ c ∈ name.toList.head?, isBlank c = false
  last : ∀ c ∈ name.toList.getLast?, isBlank c = false

/-- Blanks before a character that is none are dropped. -/
theorem dropWhile_blanks_append (blanks : Blanks ds) (start : ∀ c ∈ cs.head?, isBlank c = false) :
    (ds ++ cs).dropWhile isBlank = cs := by
  rw [List.dropWhile_append_of_pos blanks]
  cases cs with
  | nil => rfl
  | cons c cs => exact List.dropWhile_cons_of_neg (by simp [start c rfl])

/-- What is left begins with a character that is no blank. -/
theorem solid_of_head?_dropWhile (cs : List Char) :
    ∀ c ∈ (cs.dropWhile isBlank).head?, isBlank c = false := by
  intro c first
  have stopped := List.head?_dropWhile_not isBlank cs
  rw [Option.mem_def.1 first] at stopped
  simpa using stopped

/-- Blanks are trimmed off both ends of a text up to characters that are none. -/
theorem trimChars_append (blanks : Blanks ds) (blanks' : Blanks rest)
    (start : ∀ c ∈ cs.head?, isBlank c = false) (last : ∀ c ∈ cs.getLast?, isBlank c = false) :
    trimChars (ds ++ cs ++ rest) = cs := by
  cases cs with
  | nil =>
    have all : Blanks (ds ++ [] ++ rest) := by
      rw [List.append_nil]
      exact List.forall_mem_append.2 ⟨blanks, blanks'⟩
    have empty : ∀ c ∈ ([] : List Char), isBlank c = false := nofun
    exact trimChars_append_blanks empty all
  | cons c cs =>
    have front : (ds ++ (c :: cs ++ rest)).dropWhile isBlank = c :: cs ++ rest :=
      dropWhile_blanks_append blanks start
    have back : (rest.reverse ++ (c :: cs).reverse).dropWhile isBlank = (c :: cs).reverse :=
      dropWhile_blanks_append (fun b mem => blanks' b (List.mem_reverse.1 mem))
        (by rwa [List.head?_reverse])
    rw [trimChars, List.append_assoc, front, List.reverse_append, back, List.reverse_reverse]

theorem blanks_takeWhile (cs : List Char) : Blanks (cs.takeWhile isBlank) := fun c mem =>
  List.all_eq_true.1 List.all_takeWhile c mem

/-- What is trimmed off at the end are blanks. -/
theorem exists_dropWhile (cs : List Char) : ∃ back, cs.dropWhile isBlank = trimChars cs ++ back ∧
    Blanks back := by
  refine ⟨((cs.dropWhile isBlank).reverse.takeWhile isBlank).reverse, ?_,
    fun c mem => blanks_takeWhile _ c (List.mem_reverse.1 mem)⟩
  rw [trimChars, ← List.reverse_append, List.takeWhile_append_dropWhile, List.reverse_reverse]

/-- What is left does not start with a blank, -/
theorem head?_trimChars (cs : List Char) : ∀ c ∈ (trimChars cs).head?, isBlank c = false := by
  intro c first
  obtain ⟨back, eq, -⟩ := exists_dropWhile cs
  refine solid_of_head?_dropWhile cs c ?_
  rw [eq, List.head?_append, Option.mem_def.1 first]
  rfl

/-- nor end with one. -/
theorem getLast?_trimChars (cs : List Char) :
    ∀ c ∈ (trimChars cs).getLast?, isBlank c = false := by
  intro c last
  rw [trimChars, List.getLast?_reverse] at last
  exact solid_of_head?_dropWhile _ c last

/-- A text is trimmed to the name that it holds. -/
theorem trims_iff : Trims text name ↔ trim text = name := by
  constructor
  · rintro ⟨⟨front, back, eq, blanks, blanks'⟩, start, last⟩
    rw [trim, eq, trimChars_append blanks blanks' start last, String.ofList_toList]
  · rintro rfl
    obtain ⟨back, eq, blanks⟩ := exists_dropWhile text.toList
    have chars : (trim text).toList = trimChars text.toList := String.toList_ofList
    refine ⟨⟨text.toList.takeWhile isBlank, back, ?_, blanks_takeWhile _, blanks⟩, ?_, ?_⟩
    · rw [chars, List.append_assoc, ← eq, List.takeWhile_append_dropWhile]
    · rw [chars]
      exact head?_trimChars text.toList
    · rw [chars]
      exact getLast?_trimChars text.toList

/-- A name that was trimmed has no blanks to trim off. -/
theorem trim_trim (text : String) : trim (trim text) = trim text := by
  obtain ⟨-, start, last⟩ := trims_iff.2 (rfl : trim text = trim text)
  exact trims_iff.1 ⟨⟨[], [], by simp, nofun, nofun⟩, start, last⟩

/-! ## Separators -/

/-- The text is two texts with a separator between them, which is the first. -/
structure CutsInto (text : String) (sep : Char) (before after : String) : Prop where
  parts : text.toList = before.toList ++ sep :: after.toList
  first : sep ∉ before.toList

theorem CutsInto.cut_eq (cuts : CutsInto text sep before after) :
    cut text sep = (before, some after) := by
  simp only [cut, cuts.parts, cutAt_append cuts.first, String.ofList_toList, Option.map_some]

/-- A text that is free of the separator is not cut. -/
theorem cut_of_not_mem (free : sep ∉ text.toList) : cut text sep = (text, none) := by
  simp only [cut, cutAt_of_not_mem free, String.ofList_toList, Option.map_none]

/-- A text holds no separator, or is cut at the first one. -/
theorem cut_cases (text : String) (sep : Char) :
    sep ∉ text.toList ∨ ∃ before after, CutsInto text sep before after := by
  by_cases mem : sep ∈ text.toList
  · obtain ⟨before, after, eq, free⟩ := List.eq_append_cons_of_mem mem
    refine .inr ⟨String.ofList before, String.ofList after, ?_, ?_⟩
    · rw [eq, String.toList_ofList, String.toList_ofList]
    · rwa [String.toList_ofList]
  · exact .inl mem

/-! ## Numerals -/

/-- No decimal digit is a blank. -/
theorem isBlank_of_digitValue? {c : Char} {d : Nat} (digit : digitValue? c = some d) :
    isBlank c = false :=
  isBlank_of_isDigitSign (isDigitSign_of_isDecimal (Option.isSome_iff_exists.2 ⟨d, digit⟩))

namespace Integer

variable {cs rest sign : List Char} {ds : List Nat} {missing negative : Bool} {text : String} {n : Int}

/-- Digits, one after the other or with an underscore between two of them. -/
inductive Digits : List Char → List Nat → Prop
  | last {c : Char} {d : Nat} : digitValue? c = some d → Digits [c] [d]
  | next {c : Char} {d : Nat} {cs : List Char} {ds : List Nat} :
      digitValue? c = some d → Digits cs ds → Digits (c :: cs) (d :: ds)
  | apart {c : Char} {d : Nat} {cs : List Char} {ds : List Nat} :
      digitValue? c = some d → Digits cs ds → Digits (c :: '_' :: cs) (d :: ds)

/-- A sign or none, and whether it makes a number negative. -/
inductive Sign : List Char → Bool → Prop
  | none : Sign [] false
  | plus : Sign ['+'] false
  | minus : Sign ['-'] true

/-- The text has a sign and some digits with padding around them, and they give the number. -/
inductive Numeral (text : String) : Int → Prop
  | mk {front sign cs back : List Char} {negative : Bool} {ds : List Nat} :
      text.toList = front ++ (sign ++ (cs ++ back)) →
      (∀ c ∈ front, isPadding c = true) → Sign sign negative → Digits cs ds →
      (∀ c ∈ back, isPadding c = true) → ds.length ≤ maxDigits →
      Numeral text (if negative then -(ofDigits ds : Int) else ofDigits ds)

/-- Digits begin with a digit. -/
theorem Digits.exists_cons (digits : Digits cs ds) :
    ∃ c cs' d, cs = c :: cs' ∧ digitValue? c = some d := by
  cases digits with
  | last digit => exact ⟨_, _, _, rfl, digit⟩
  | next digit _ => exact ⟨_, _, _, rfl, digit⟩
  | apart digit _ => exact ⟨_, _, _, rfl, digit⟩

/-- Signs and underscores are no digits. -/
theorem digitValue?_sign :
    digitValue? '-' = none ∧ digitValue? '+' = none ∧ digitValue? '_' = none := by decide +kernel

/-- Padding ends digits. -/
theorem isPadding_stops {c : Char} (padding : isPadding c = true) :
    digitValue? c = none ∧ c ≠ '_' := by
  have blank : isBlank c = true := (Bool.and_eq_true_iff.1 padding).1
  constructor
  · cases digit : digitValue? c with
    | none => rfl
    | some d =>
      rw [isBlank_of_digitValue? digit] at blank
      cases blank
  · rintro rfl
    exact absurd blank (by decide)

/-- Digits are taken up to the padding behind them. -/
theorem Digits.takeDigits_eq (digits : Digits cs ds) (padding : ∀ c ∈ rest, isPadding c = true) :
    takeDigits missing (cs ++ rest) = some (ds, rest) := by
  have stop : takeDigits false rest = some ([], rest) := by
    cases rest with
    | nil => rfl
    | cons c rest =>
      obtain ⟨other, differs⟩ := isPadding_stops (padding c List.mem_cons_self)
      simp [takeDigits, other, differs]
  induction digits generalizing missing with
  | last digit => simp [takeDigits, digit, stop]
  | next digit _ ih => simp [takeDigits, digit, ih]
  | apart digit _ ih => simp [takeDigits, digit, digitValue?_sign, ih]

/-- What is taken are digits, with an underscore before them when there were digits before that. -/
theorem digits_of_takeDigits (taken : takeDigits missing cs = some (ds, rest)) :
    (missing = false ∧ ds = [] ∧ cs = rest) ∨
      ∃ run, Digits run ds ∧ (cs = run ++ rest ∨ missing = false ∧ cs = '_' :: (run ++ rest)) := by
  -- An underscore is only taken after a digit, which is no longer there when the rest is taken.
  induction cs generalizing missing ds with
  | nil =>
    cases missing with
    | true => cases taken
    | false =>
      cases taken
      exact .inl ⟨rfl, rfl, rfl⟩
  | cons c cs ih =>
    unfold takeDigits at taken
    split at taken
    · next d digit =>
      obtain ⟨⟨others, rest'⟩, more, made⟩ := Option.map_eq_some_iff.1 taken
      cases made
      right
      rcases ih more with ⟨-, rfl, rfl⟩ | ⟨run, digits, rfl | ⟨-, rfl⟩⟩
      · exact ⟨[c], .last digit, .inl rfl⟩
      · exact ⟨c :: run, .next digit digits, .inl rfl⟩
      · exact ⟨c :: '_' :: run, .apart digit digits, .inl rfl⟩
    · split at taken
      · cases taken
      · next there =>
        have there : missing = false := Bool.eq_false_iff.2 there
        split at taken
        · next underscore =>
          subst underscore
          rcases ih taken with ⟨impossible, -⟩ | ⟨run, digits, rfl | ⟨impossible, -⟩⟩
          · cases impossible
          · exact .inr ⟨run, digits, .inr ⟨there, rfl⟩⟩
          · cases impossible
        · cases taken
          exact .inl ⟨there, rfl, rfl⟩

/-- A sign is taken off digits. -/
theorem Sign.takeSign_eq (signs : Sign sign negative) (digits : Digits cs ds) :
    takeSign (sign ++ (cs ++ rest)) = (negative, cs ++ rest) := by
  cases signs with
  | plus => rfl
  | minus => rfl
  | none =>
    obtain ⟨c, cs, d, rfl, digit⟩ := digits.exists_cons
    rw [List.nil_append, List.cons_append]
    unfold takeSign
    split
    · next eq =>
      cases eq
      cases digitValue?_sign.1.symm.trans digit
    · next eq =>
      cases eq
      cases digitValue?_sign.2.1.symm.trans digit
    · rfl

/-- What is taken off is a sign. -/
theorem exists_sign (cs : List Char) :
    ∃ sign, Sign sign (takeSign cs).1 ∧ cs = sign ++ (takeSign cs).2 := by
  unfold takeSign
  split
  · exact ⟨['-'], .minus, rfl⟩
  · exact ⟨['+'], .plus, rfl⟩
  · exact ⟨[], .none, rfl⟩

/-- No padding stands before a sign or a digit. -/
theorem Sign.dropWhile_isPadding (signs : Sign sign negative) (digits : Digits cs ds) :
    (sign ++ (cs ++ rest)).dropWhile isPadding = sign ++ (cs ++ rest) := by
  cases signs with
  | plus => exact List.dropWhile_cons_of_neg (by decide)
  | minus => exact List.dropWhile_cons_of_neg (by decide)
  | none =>
    obtain ⟨c, cs, d, rfl, digit⟩ := digits.exists_cons
    exact List.dropWhile_cons_of_neg (by simp [isPadding, isBlank_of_digitValue? digit])

/-- A numeral is read as the number that it gives, and other texts are not read. -/
theorem read_eq_ok_iff : read text = .ok n ↔ Numeral text n := by
  constructor
  · intro found
    obtain ⟨sign, signs, eq⟩ := exists_sign (text.toList.dropWhile isPadding)
    simp only [read] at found
    split at found
    · cases found
    · next ds rest taken =>
      split at found
      · cases found
      · next short =>
        split at found
        · next padding =>
          cases found
          rcases digits_of_takeDigits taken with ⟨impossible, -⟩ | ⟨run, digits, parts | ⟨impossible, -⟩⟩
          · cases impossible
          · have whole : text.toList = text.toList.takeWhile isPadding ++ (sign ++ (run ++ rest)) := by
              rw [← parts, ← eq, List.takeWhile_append_dropWhile]
            exact .mk whole (fun c mem => List.all_eq_true.1 List.all_takeWhile c mem) signs digits
              (List.all_eq_true.1 padding) (Nat.not_lt.1 short)
          · cases impossible
        · cases found
  · rintro @⟨front, sign, cs, back, negative, ds, parts, padding, signs, digits, padding', short⟩
    have body : text.toList.dropWhile isPadding = sign ++ (cs ++ back) := by
      rw [parts, List.dropWhile_append_of_pos padding, signs.dropWhile_isPadding digits]
    simp only [read, body, signs.takeSign_eq digits, digits.takeDigits_eq padding',
      if_neg (Nat.not_lt.2 short), List.all_eq_true.2 padding', if_true]

end Integer

end DancingLinks.Text
