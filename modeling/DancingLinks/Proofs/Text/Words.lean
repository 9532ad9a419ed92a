import DancingLinks.Text.Blank
import DancingLinks.Text.Cut

/-!
# Words and their joins

Texts that are joined by blanks are read back word by word (`words_intercalate_eq`), and nothing but
blanks is lost (`exists_word`). So words that are joined are read back as they were
(`words_intercalate`): a word that is not empty and holds no blank (`Solid`) ends where the blank after
it stands.
-/

namespace DancingLinks.Text

variable {cs word rest : List Char} {b : Char}

/-- A word is not empty and holds no blank. -/
def Solid (cs : List Char) : Prop := cs ≠ [] ∧ ∀ c ∈ cs, isBlank c = false

/-- Blanks before a text do not count. -/
theorem wordChars_cons_blank (blank : isBlank b = true) : wordChars (b :: rest) = wordChars rest :=
  if_pos blank

/-- A character that is no blank starts the word after it, or is a word of its own. -/
theorem wordChars_cons_solid {c : Char} (solid : isBlank c = false) :
    wordChars (c :: cs) = match cs, wordChars cs with
      | d :: _, word :: words =>
        if isBlank d then [c] :: word :: words else (c :: word) :: words
      | _, words => [c] :: words :=
  if_neg (by simp [solid])

/-- A character that is no blank is a word of its own, or extends the first word after it. -/
theorem wordChars_cons_cases {c : Char} (solid : isBlank c = false) (cs : List Char) :
    wordChars (c :: cs) = [c] :: wordChars cs ∨
      ∃ word words, wordChars cs = word :: words ∧ wordChars (c :: cs) = (c :: word) :: words := by
  rw [wordChars_cons_solid solid]
  cases cs with
  | nil => exact .inl rfl
  | cons d cs =>
    cases wordChars (d :: cs) with
    | nil => exact .inl rfl
    | cons word words =>
      cases second : isBlank d with
      | true => exact .inl (if_pos second)
      | false => exact .inr ⟨word, words, rfl, if_neg (by simp [second])⟩

/-- What is no blank stands in a word. -/
theorem exists_word {c : Char} (mem : c ∈ cs) (solid : isBlank c = false) :
    ∃ word ∈ wordChars cs, c ∈ word := by
  induction cs with
  | nil => cases mem
  | cons d cs ih =>
    cases first : isBlank d with
    | true =>
      rw [wordChars_cons_blank first]
      rcases List.mem_cons.1 mem with rfl | mem
      · rw [first] at solid
        cases solid
      · exact ih mem
    | false =>
      rcases wordChars_cons_cases first cs with alone | ⟨word, words, found, joined⟩
      · rw [alone]
        rcases List.mem_cons.1 mem with rfl | mem
        · exact ⟨[c], List.mem_cons_self, List.mem_cons_self⟩
        · obtain ⟨word, there, mem⟩ := ih mem
          exact ⟨word, List.mem_cons_of_mem _ there, mem⟩
      · rw [joined]
        rcases List.mem_cons.1 mem with rfl | mem
        · exact ⟨c :: word, List.mem_cons_self, List.mem_cons_self⟩
        · obtain ⟨other, there, mem⟩ := ih mem
          rw [found] at there
          rcases List.mem_cons.1 there with rfl | there
          · exact ⟨d :: other, List.mem_cons_self, List.mem_cons_of_mem _ mem⟩
          · exact ⟨other, List.mem_cons_of_mem _ there, mem⟩

/-- A text without words is blank. -/
theorem isBlank_of_wordChars_eq_nil (none : wordChars cs = []) : ∀ c ∈ cs, isBlank c = true := by
  intro c mem
  cases solid : isBlank c with
  | true => rfl
  | false =>
    obtain ⟨word, there, -⟩ := exists_word mem solid
    rw [none] at there
    cases there

/-- A blank between two texts keeps their words apart. -/
theorem wordChars_append_cons (blank : isBlank b = true) :
    wordChars (cs ++ b :: rest) = wordChars cs ++ wordChars rest := by
  induction cs with
  | nil => exact wordChars_cons_blank blank
  | cons c cs ih =>
    rw [List.cons_append]
    cases first : isBlank c with
    | true => rw [wordChars_cons_blank first, wordChars_cons_blank first, ih]
    | false =>
      rw [wordChars_cons_solid first, wordChars_cons_solid first, ih]
      cases cs with
      | nil =>
        cases wordChars rest with
        | nil => rfl
        | cons word words => exact if_pos blank
      | cons d cs =>
        cases found : wordChars (d :: cs) with
        | nil =>
          have second : isBlank d = true := isBlank_of_wordChars_eq_nil found d List.mem_cons_self
          cases wordChars rest with
          | nil => rfl
          | cons word words => exact if_pos second
        | cons word words =>
          simp only [List.cons_append]
          split
          · rfl
          · rfl

/-- A blank after a text does not count. -/
theorem wordChars_append_blank (blank : isBlank b = true) : wordChars (cs ++ [b]) = wordChars cs := by
  rw [wordChars_append_cons blank]
  exact List.append_nil _

/-- A word ends at the first blank after it, or at the end of the text. -/
theorem wordChars_append (h : Solid word) (ends : ∀ b ∈ rest.head?, isBlank b = true) :
    wordChars (word ++ rest) = word :: wordChars rest := by
  induction word with
  | nil => exact absurd rfl h.1
  | cons c word ih =>
    have first := h.2 c List.mem_cons_self
    rw [List.cons_append, wordChars_cons_solid first]
    cases word with
    | nil =>
      cases rest with
      | nil => rfl
      | cons b rest =>
        have blank : isBlank b = true := ends b rfl
        rw [List.nil_append, wordChars_cons_blank blank]
        cases wordChars rest with
        | nil => rfl
        | cons w ws => exact if_pos blank
    | cons d word =>
      have second : ¬isBlank d = true := by simp [h.2 d (by simp)]
      rw [ih ⟨List.cons_ne_nil _ _, fun x hx => h.2 x (List.mem_cons_of_mem _ hx)⟩]
      exact if_neg second

/-- There are no blanks up to the first one. -/
theorem isBlank_of_mem_takeWhile {c : Char} (mem : c ∈ cs.takeWhile (!isBlank ·)) :
    isBlank c = false := by
  simpa using List.all_eq_true.1 List.all_takeWhile c mem

/-- The first blank follows. -/
theorem isBlank_of_head?_dropWhile (cs : List Char) :
    ∀ b ∈ (cs.dropWhile (!isBlank ·)).head?, isBlank b = true := by
  intro b first
  have stopped := List.head?_dropWhile_not (!isBlank ·) cs
  rw [Option.mem_def.1 first] at stopped
  simpa using stopped

/-- A word before a text goes on to the first blank of the text. -/
theorem wordChars_solid_append (h : Solid word) (cs : List Char) :
    wordChars (word ++ cs)
      = (word ++ cs.takeWhile (!isBlank ·)) :: wordChars (cs.dropWhile (!isBlank ·)) := by
  have longer : Solid (word ++ cs.takeWhile (!isBlank ·)) := by
    refine ⟨List.append_ne_nil_of_left_ne_nil h.1 _, fun c mem => ?_⟩
    rcases List.mem_append.1 mem with mem | mem
    · exact h.2 c mem
    · exact isBlank_of_mem_takeWhile mem
  have whole : word ++ cs
      = (word ++ cs.takeWhile (!isBlank ·)) ++ cs.dropWhile (!isBlank ·) := by
    rw [List.append_assoc, List.takeWhile_append_dropWhile]
  rw [whole, wordChars_append longer (isBlank_of_head?_dropWhile cs)]

/-- A text up to its first blank. -/
def firstWord (text : String) : String := String.ofList (text.toList.takeWhile (!isBlank ·))

/-- The words of a text from its first blank on. -/
def wordsAfter (text : String) : List String :=
  (wordChars (text.toList.dropWhile (!isBlank ·))).map String.ofList

/-- A text without blanks is one word. -/
theorem words_of_solid {text : String} (solid : Solid text.toList) : words text = [text] := by
  have alone : wordChars (text.toList ++ []) = text.toList :: wordChars [] :=
    wordChars_append solid nofun
  rw [List.append_nil] at alone
  rw [words, alone, List.map_cons, String.ofList_toList]
  rfl

/-- Texts joined by blanks are read back word by word. -/
theorem words_intercalate_eq (texts : List String) :
    words (" ".intercalate texts) = texts.flatMap words := by
  have blank : " ".toList = [' '] := rfl
  have chars : ∀ cs : List (List Char), wordChars ([' '].intercalate cs) = cs.flatMap wordChars := by
    intro cs
    induction cs with
    | nil => rfl
    | cons c cs ih =>
      cases cs with
      | nil => rw [List.intercalate_singleton, List.flatMap_singleton]
      | cons d cs =>
        rw [List.intercalate_cons_cons, List.append_assoc, List.singleton_append,
          wordChars_append_cons (by decide), ih, List.flatMap_cons, List.flatMap_cons,
          List.flatMap_cons]
  rw [words, String.toList_intercalate, blank, chars, List.flatMap_map, List.map_flatMap]
  rfl

/-- Words joined by blanks are read back. -/
theorem words_intercalate {names : List String} (solid : ∀ name ∈ names, Solid name.toList) :
    words (" ".intercalate names) = names := by
  rw [words_intercalate_eq]
  induction names with
  | nil => rfl
  | cons name names ih =>
    obtain ⟨first, others⟩ := List.forall_mem_cons.1 solid
    rw [List.flatMap_cons, words_of_solid first, ih others]
    rfl

/-- Blanks before a text do not count. -/
theorem words_blank_append (text : String) : words (" " ++ text) = words text := by
  have blank : (" " ++ text).toList = ' ' :: text.toList := by
    rw [String.toList_append]
    rfl
  rw [words, blank, wordChars_cons_blank (by decide), words]

/-- A word before a text goes on to the first blank of the text. -/
theorem words_solid_append {front : String} (solid : Solid front.toList) (text : String) :
    words (front ++ text) = (front ++ firstWord text) :: wordsAfter text := by
  rw [words, String.toList_append, wordChars_solid_append solid, List.map_cons, String.ofList_append,
    String.ofList_toList, firstWord, wordsAfter]

/-- No blanks are dropped from a text that holds none. -/
theorem dropWhile_isBlank_eq_self (solid : ∀ c ∈ cs, isBlank c = false) :
    cs.dropWhile isBlank = cs := by
  cases cs with
  | nil => rfl
  | cons c cs => rw [List.dropWhile_cons_of_neg (by simp [solid c List.mem_cons_self])]

/-- Blanks after a text that holds none are trimmed off. -/
theorem trimChars_append_blanks (solid : ∀ c ∈ cs, isBlank c = false)
    (blanks : ∀ c ∈ rest, isBlank c = true) : trimChars (cs ++ rest) = cs := by
  have backwards : (cs ++ rest).reverse.dropWhile isBlank = cs.reverse := by
    rw [List.reverse_append,
      List.dropWhile_append_of_pos fun c hc => blanks c (List.mem_reverse.1 hc)]
    exact dropWhile_isBlank_eq_self fun c hc => solid c (List.mem_reverse.1 hc)
  cases cs with
  | nil =>
    have none : (rest ++ []).dropWhile isBlank = [] := List.dropWhile_append_of_pos blanks
    rw [List.append_nil] at none
    rw [List.nil_append, trimChars, none]
    rfl
  | cons c cs =>
    have first : ¬isBlank c = true := by simp [solid c List.mem_cons_self]
    rw [List.cons_append] at backwards
    rw [trimChars, List.cons_append, List.dropWhile_cons_of_neg first, backwards,
      List.reverse_reverse]

/-- When no word follows the first blank, nothing but blanks is trimmed off behind it. -/
theorem trim_append {front text : String} (solid : ∀ c ∈ front.toList, isBlank c = false)
    (none : wordsAfter text = []) : trim (front ++ text) = front ++ firstWord text := by
  have blanks : ∀ c ∈ text.toList.dropWhile (!isBlank ·), isBlank c = true :=
    isBlank_of_wordChars_eq_nil (List.map_eq_nil_iff.1 none)
  have longer : ∀ c ∈ front.toList ++ text.toList.takeWhile (!isBlank ·), isBlank c = false := by
    intro c mem
    rcases List.mem_append.1 mem with mem | mem
    · exact solid c mem
    · exact isBlank_of_mem_takeWhile mem
  have whole : (front ++ text).toList = (front.toList ++ text.toList.takeWhile (!isBlank ·))
      ++ text.toList.dropWhile (!isBlank ·) := by
    rw [String.toList_append, List.append_assoc, List.takeWhile_append_dropWhile]
  rw [trim, whole, trimChars_append_blanks longer blanks, String.ofList_append, String.ofList_toList,
    firstWord]

/-- A word has no blanks to trim off. -/
theorem trimChars_of_solid (h : Solid cs) : trimChars cs = cs := by
  have trimmed : trimChars (cs ++ []) = cs := trimChars_append_blanks h.2 nofun
  rwa [List.append_nil] at trimmed

/-- A text with a character that is no blank is not blank. -/
theorem isBlankText_of_mem {text : String} {c : Char} (mem : c ∈ text.toList)
    (solid : isBlank c = false) : isBlankText text = false :=
  List.all_eq_false.2 ⟨c, mem, by simp [solid]⟩

/-- A text with a word is not blank. -/
theorem isBlankText_of_solid {text : String} {before after : List Char}
    (eq : text.toList = before ++ after) (h : Solid before) : isBlankText text = false := by
  obtain ⟨c, mem⟩ := List.exists_mem_of_ne_nil before h.1
  exact isBlankText_of_mem (eq ▸ List.mem_append_left _ mem) (h.2 c mem)

end DancingLinks.Text
