import Matchmaker.Json.Printer
import Matchmaker.Json.Reader
import Matchmaker.Proofs.Decimal.Digits

/-!
Reading what was written. The compact form of a document is read back as that document, whatever
characters its texts have and however deep it is, if its numbers are written as the grammar has them
and no text has an unpaired surrogate.
-/
namespace Matchmaker.Json

/-! ### Strings -/

theorem hexValue?_hexDigit (n : Nat) : Text.hexValue? (Text.hexDigit n) = some (n % 16) := by
  have all : ∀ d < 16, Text.hexValue? (Nat.digitChar d) = some d := by decide
  exact all _ (Nat.mod_lt n (by decide))

theorem codeUnit?_hexPlaces {n : Nat} (bound : n < 0x10000) (rest : List Char) :
    codeUnit? (Text.hexPlaces 4 n ++ rest) = some (n, rest) := by
  simp only [Text.hexPlaces, List.nil_append, List.cons_append, codeUnit?, hexValue?_hexDigit,
    Option.bind_eq_bind, Option.bind_some, Option.some.injEq, Prod.mk.injEq, and_true]
  omega

theorem escaped?_of_escapeLetter? {c letter : Char} (h : escapeLetter? c = some letter) :
    escaped? letter = some c ∧ letter ≠ 'u' := by
  unfold escapeLetter? at h
  repeat' split at h
  all_goals cases h <;> exact ⟨by subst c; rfl, by decide⟩

theorem ne_of_escapeLetter? {c : Char} (h : escapeLetter? c = none) : c ≠ '"' ∧ c ≠ '\\' := by
  unfold escapeLetter? at h
  grind

theorem pieces_escapeChar (c : Char) (fuel : Nat) (rest : List Char) :
    pieces (fuel + 1) (escapeChar c ++ rest) =
      (pieces fuel rest).bind fun (tail, rest) => some (.char c :: tail, rest) := by
  cases letter : escapeLetter? c with
  | some l =>
    obtain ⟨read, other⟩ := escaped?_of_escapeLetter? letter
    have written : escapeChar c = ['\\', l] := by rw [escapeChar, letter]
    rw [written, List.cons_append, List.singleton_append, pieces, read]
    · rfl
    · simp [other]
  | none =>
    obtain ⟨quote, backslash⟩ := ne_of_escapeLetter? letter
    by_cases control : c.toNat < 0x20
    · have written : escapeChar c = '\\' :: 'u' :: Text.hexPlaces 4 c.toNat := by
        rw [escapeChar, letter]
        exact if_pos control
      have whole : (isHighSurrogate c.toNat || isLowSurrogate c.toNat) = false := by
        simp [isHighSurrogate, isLowSurrogate]
        omega
      rw [written, List.cons_append, List.cons_append, pieces, codeUnit?_hexPlaces (by omega)]
      simp only [Option.bind_eq_bind, Option.bind_some, whole, Char.ofNat_toNat]
      rfl
    · have written : escapeChar c = [c] := by
        rw [escapeChar, letter]
        exact if_neg control
      rw [written, List.singleton_append, pieces]
      · simp [control, backslash]
      · simp [quote]
      · simp [backslash]
      · simp [backslash]

theorem pieces_flatMap_escapeChar (cs : List Char) {fuel : Nat} (enough : cs.length < fuel)
    (rest : List Char) :
    pieces fuel (cs.flatMap escapeChar ++ '"' :: rest) = some (cs.map .char, rest) := by
  induction cs generalizing fuel with
  | nil =>
    obtain ⟨fuel, rfl⟩ := Nat.exists_eq_add_of_lt enough
    rfl
  | cons c cs ih =>
    obtain ⟨fuel, rfl⟩ := Nat.exists_eq_add_of_lt enough
    rw [List.flatMap_cons, List.append_assoc, pieces_escapeChar, ih (by simp; omega)]
    rfl

theorem joinPieces_map_char (cs : List Char) : joinPieces (cs.map .char) = some cs := by
  induction cs with
  | nil => rfl
  | cons c cs ih => rw [List.map_cons, joinPieces, ih, Option.map_some]

theorem length_le_flatMap_escapeChar (cs : List Char) :
    cs.length ≤ (cs.flatMap escapeChar).length := by
  have written (c : Char) : 1 ≤ (escapeChar c).length := by
    unfold escapeChar
    split
    · simp
    · split <;> simp
  induction cs with
  | nil => simp
  | cons c cs ih =>
    have first := written c
    simp only [List.flatMap_cons, List.length_append, List.length_cons]
    omega

theorem stringBody_quote (s : String) (rest : List Char) :
    stringBody (s.toList.flatMap escapeChar ++ '"' :: rest) = some (some s, rest) := by
  have enough := length_le_flatMap_escapeChar s.toList
  rw [stringBody, pieces_flatMap_escapeChar]
  · simp [joinPieces_map_char]
  · simp only [List.length_append, List.length_cons]
    omega

/-! ### Numbers -/

section Numbers

open Decimal

/-- A number as the grammar has it: digits before the point, a zero at their front only if it is the
only one. -/
structure Sound (p : Parts) : Prop where
  whole : p.whole ≠ []
  leading : ∀ d ds, p.whole ≠ 0 :: d :: ds
  digits : ∀ d ∈ p.whole ++ p.fraction, d < 10

variable {p : Parts} {rest : List Char}

def fractionChars (ds : List Nat) : List Char :=
  if ds.isEmpty then [] else '.' :: ds.map digitChar

def exponentText (e : Option Int) : List Char := (e.map Parts.exponentChars).getD []

theorem chars_append (p : Parts) (rest : List Char) :
    p.chars ++ rest = (if p.negative then ['-'] else []) ++ (p.whole.map digitChar ++
      (fractionChars p.fraction ++ (exponentText p.exponent ++ rest))) := by
  simp only [Parts.chars, fractionChars, exponentText, List.append_assoc]

structure Stops (rest : List Char) : Prop where
  digit : ∀ c ∈ rest.head?, isDigit c = false
  point : ∀ c ∈ rest.head?, c ≠ '.'
  exponent : ∀ c ∈ rest.head?, c ≠ 'e' ∧ c ≠ 'E'

theorem exponentPart_exponentChars (h : Stops rest) (e : Int) :
    exponentPart (Parts.exponentChars e ++ rest) = some (some e, rest) := by
  have read := takeDigits_natChars_append e.natAbs h.digit
  have sign (cs : List Char) :
      splitSign ((if e < 0 then '-' else '+') :: cs) = (decide (e < 0), cs) := by
    split <;> simp [splitSign, *]
  obtain ⟨d, ds, shown⟩ := List.exists_cons_of_ne_nil (digits_ne_nil e.natAbs)
  have value : ofDigits (d :: ds) = e.natAbs := by rw [← shown, ofDigits_digits]
  rw [Parts.exponentChars, List.cons_append, List.cons_append, exponentPart, if_pos (by decide)]
  have signed : (if decide (e < 0) then -(e.natAbs : Int) else e.natAbs) = e := by
    by_cases negative : e < 0
    · rw [if_pos (decide_eq_true negative)]
      omega
    · rw [if_neg (by rwa [decide_eq_true_eq])]
      omega
  simp only [sign, read, shown, value]
  rw [signed]

theorem exponentPart_append (h : Stops rest) (e : Option Int) :
    exponentPart (exponentText e ++ rest) = some (e, rest) := by
  cases e with
  | some e => exact exponentPart_exponentChars h e
  | none =>
    cases rest with
    | nil => rfl
    | cons c rest =>
      obtain ⟨lower, upper⟩ := h.exponent c rfl
      simp [exponentText, exponentPart, lower, upper]

theorem head?_exponent (h : Stops rest) (e : Option Int) :
    ∀ c ∈ (exponentText e ++ rest).head?, isDigit c = false ∧ c ≠ '.' := by
  cases e with
  | none => exact fun c first => ⟨h.digit c first, h.point c first⟩
  | some e =>
    rintro c ⟨⟩
    decide

theorem fractionPart_append {ds : List Nat} (bound : ∀ d ∈ ds, d < 10)
    (h : ∀ c ∈ rest.head?, isDigit c = false ∧ c ≠ '.') :
    fractionPart (fractionChars ds ++ rest) = some (ds, rest) := by
  cases ds with
  | nil =>
    cases rest with
    | nil => rfl
    | cons c rest =>
      have other := (h c rfl).2
      simp [fractionChars, fractionPart, other]
  | cons d ds =>
    have read := takeDigits_map_append bound fun c first => (h c first).1
    have written : fractionChars (d :: ds) ++ rest = '.' :: ((d :: ds).map digitChar ++ rest) := rfl
    rw [written, fractionPart, read]

theorem head?_fraction (ds : List Nat) (h : ∀ c ∈ rest.head?, isDigit c = false ∧ c ≠ '.') :
    ∀ c ∈ (fractionChars ds ++ rest).head?, isDigit c = false := by
  cases ds with
  | nil => exact fun c first => (h c first).1
  | cons d ds =>
    rintro c ⟨⟩
    rfl

theorem unsignedPart_append (h : Sound p) (ends : Stops rest) :
    unsignedPart p.negative (p.whole.map digitChar ++
      (fractionChars p.fraction ++ (exponentText p.exponent ++ rest))) = some (p, rest) := by
  have later := head?_exponent ends p.exponent
  have whole := takeDigits_map_append (fun d mem => h.digits d (List.mem_append_left _ mem))
    (head?_fraction p.fraction later)
  have fraction := fractionPart_append (fun d mem => h.digits d (List.mem_append_right _ mem)) later
  rw [unsignedPart, whole]
  simp only [fraction]
  split
  · exact absurd ‹_› h.whole
  · exact absurd ‹_› (h.leading _ _)
  · simp [exponentPart_append ends]

theorem exists_whole (h : Sound p) (rest : List Char) :
    ∃ c cs, p.whole.map digitChar ++ rest = c :: cs ∧ isDigit c = true := by
  obtain ⟨d, ds, shown⟩ := List.exists_cons_of_ne_nil h.whole
  have bound : d < 10 := h.digits d (by simp [shown])
  rw [shown]
  refine ⟨digitChar d, _, rfl, ?_⟩
  rw [isDigit, digitValue?_digitChar bound]
  rfl

theorem exists_chars (h : Sound p) (rest : List Char) :
    ∃ c cs, p.chars ++ rest = c :: cs ∧ (c = '-' ∨ isDigit c = true) := by
  rw [chars_append]
  cases p.negative with
  | true => exact ⟨'-', _, rfl, .inl rfl⟩
  | false =>
    obtain ⟨c, cs, front, digit⟩ := exists_whole h _
    exact ⟨c, cs, front, .inr digit⟩

theorem numberPart_chars (h : Sound p) (ends : Stops rest) :
    numberPart (p.chars ++ rest) = some (p, rest) := by
  have read := unsignedPart_append h ends
  rw [chars_append]
  cases sign : p.negative with
  | true =>
    rw [sign] at read
    exact read
  | false =>
    rw [sign] at read
    obtain ⟨c, cs, front, digit⟩ := exists_whole h _
    rw [front] at read
    simp only [Bool.false_eq_true, if_false, List.nil_append, front]
    rw [numberPart, read]
    rintro _ ⟨⟩
    cases digit

end Numbers

/-! ### Values -/

section Values

open Decimal

/-- A document with a written form of its own: each number is as the grammar has it, and no text and
no key has an unpaired surrogate. -/
inductive Writable : Json → Prop where
  | null : Writable null
  | bool (b : Bool) : Writable (bool b)
  | number {parts : Parts} : Sound parts → Writable (number parts)
  | text (s : String) : Writable (text s)
  | array {items : List Json} : (∀ item ∈ items, Writable item) → Writable (array items)
  | object {members : List (Option String × Json)} : (∀ member ∈ members, member.1 ≠ none) →
    (∀ member ∈ members, Writable member.2) → Writable (object members)

def Ends (rest : List Char) : Prop := ∀ c ∈ rest.head?, c = ',' ∨ c = ']' ∨ c = '\x7d'

variable {rest : List Char}

theorem ends_cons {c : Char} (h : c = ',' ∨ c = ']' ∨ c = '\x7d') (rest : List Char) :
    Ends (c :: rest) := by
  rintro _ ⟨⟩
  exact h

theorem Ends.stops (h : Ends rest) : Stops rest where
  digit := by
    intro c first
    rcases h c first with rfl | rfl | rfl <;> rfl
  point := by
    intro c first
    rcases h c first with rfl | rfl | rfl <;> decide
  exponent := by
    intro c first
    rcases h c first with rfl | rfl | rfl <;> decide

theorem skipSpace_cons {c : Char} (h : isSpace c = false) (rest : List Char) :
    skipSpace (c :: rest) = c :: rest := by
  rw [skipSpace, List.dropWhile_cons_of_neg (by simp [h])]

theorem skipSpace_comma (rest : List Char) : skipSpace (',' :: rest) = ',' :: rest :=
  skipSpace_cons rfl rest

theorem skipSpace_colon (rest : List Char) : skipSpace (':' :: rest) = ':' :: rest :=
  skipSpace_cons rfl rest

theorem afterWord?_append (word : String) (rest : List Char) :
    afterWord? word (word.toList ++ rest) = some rest := by
  simp [afterWord?]

def opening : List Char := ['"', '[', '\x7b', 'n', 't', 'f', ']', ' ', '\t', '\n', '\r']

theorem not_mem_opening {c : Char} (h : c = '-' ∨ isDigit c = true) : c ∉ opening := by
  rcases h with rfl | digit
  · decide
  · intro mem
    have none : opening.all (fun c => !isDigit c) = true := by decide
    exact absurd digit (by simpa using List.all_eq_true.1 none c mem)

theorem exists_compact {j : Json} (h : Writable j) (rest : List Char) :
    ∃ c cs, compact j ++ rest = c :: cs ∧ isSpace c = false ∧ c ≠ ']' := by
  cases h with
  | null => exact ⟨'n', _, rfl, rfl, by decide⟩
  | bool b => cases b <;> exact ⟨_, _, rfl, rfl, by decide⟩
  | number sound =>
    obtain ⟨c, cs, front, start⟩ := exists_chars sound rest
    have other := not_mem_opening start
    refine ⟨c, cs, front, ?_, ?_⟩
    · simp only [opening, List.mem_cons, not_or] at other
      simp [isSpace, other]
    · rintro rfl
      exact other (by decide)
  | text s => exact ⟨'"', _, rfl, rfl, by decide⟩
  | array _ => exact ⟨'[', _, rfl, rfl, by decide⟩
  | object _ _ => exact ⟨'\x7b', _, rfl, rfl, by decide⟩

theorem skipSpace_compact {j : Json} (h : Writable j) (rest : List Char) :
    skipSpace (compact j ++ rest) = compact j ++ rest := by
  obtain ⟨c, cs, front, visible, -⟩ := exists_compact h rest
  rw [front, skipSpace_cons visible]

theorem value_number {p : Parts} (h : Sound p) (ends : Ends rest) (fuel : Nat) :
    value (fuel + 1) (p.chars ++ rest) = some (number p, rest) := by
  have read := numberPart_chars h ends.stops
  obtain ⟨c, cs, front, start⟩ := exists_chars h rest
  have other := not_mem_opening start
  simp only [opening, List.mem_cons, not_or] at other
  rw [front] at read ⊢
  rw [value, read]
  · rfl
  -- the other branches of the reader begin with characters that no number begins with
  all_goals simp [other]

theorem value_text (s : String) (rest : List Char) (fuel : Nat) :
    value (fuel + 1) (quote s ++ rest) = some (text s, rest) := by
  have read := stringBody_quote s rest
  have written : quote s ++ rest = '"' :: (s.toList.flatMap escapeChar ++ '"' :: rest) := by
    simp [quote]
  rw [written, value, read]
  rfl

/-! ### Nested documents -/

def behind {α : Type} (later : List α) (written : List Char) (close : Char) (rest : List Char) :
    List Char :=
  if later.isEmpty then close :: rest else ',' :: (written ++ close :: rest)

theorem ends_behind {α : Type} (later : List α) (written : List Char) {close : Char}
    (h : close = ']' ∨ close = '\x7d') (rest : List Char) :
    Ends (behind later written close rest) := by
  unfold behind
  split
  · exact ends_cons (.inr h) _
  · exact ends_cons (.inl rfl) _

theorem length_behind {α : Type} (later : List α) (written : List Char) (close : Char)
    (rest : List Char) : rest.length < (behind later written close rest).length := by
  unfold behind
  split <;> simp
  omega

theorem compactItems_cons (item : Json) (items : List Json) (rest : List Char) :
    compactItems (item :: items) ++ ']' :: rest =
      compact item ++ behind items (compactItems items) ']' rest := by
  cases items with
  | nil => rfl
  | cons next items => simp [compactItems, behind]

theorem compactMembers_cons (key : String) (v : Json) (members : List (Option String × Json))
    (rest : List Char) :
    compactMembers ((some key, v) :: members) ++ '\x7d' :: rest =
      '"' :: (key.toList.flatMap escapeChar ++
        '"' :: ':' :: (compact v ++ behind members (compactMembers members) '\x7d' rest)) := by
  cases members with
  | nil => simp [compactMembers, quoteKey, quote, behind]
  | cons next members => simp [compactMembers, quoteKey, quote, behind]

theorem length_compact_pos {j : Json} (h : Writable j) : 0 < (compact j).length := by
  obtain ⟨c, cs, front, -, -⟩ := exists_compact h []
  rw [List.append_nil] at front
  simp [front]

/-- What is read back with so much fuel. The text of an item or a member is shorter than that of the
list it stands in, so the length of the whole text is fuel enough. -/
structure ReadsBack (fuel : Nat) : Prop where
  value : ∀ {j} (rest), Writable j → (compact j).length ≤ fuel → Ends rest →
    value fuel (compact j ++ rest) = some (j, rest)
  items : ∀ {js} (rest), js ≠ [] → (∀ j ∈ js, Writable j) → (compactItems js).length < fuel →
    items fuel (compactItems js ++ ']' :: rest) = some (js, rest)
  members : ∀ {ms} (rest), ms ≠ [] → (∀ m ∈ ms, m.1 ≠ none) → (∀ m ∈ ms, Writable m.2) →
    (compactMembers ms).length < fuel →
    members fuel (compactMembers ms ++ '\x7d' :: rest) = some (ms, rest)

variable {fuel : Nat}

theorem ReadsBack.array (h : ReadsBack fuel) {js : List Json} (writable : ∀ j ∈ js, Writable j)
    (enough : (compact (array js)).length ≤ fuel + 1) (rest : List Char) :
    Json.value (fuel + 1) (compact (array js) ++ rest) = some (array js, rest) := by
  have written : compact (Json.array js) ++ rest = '[' :: (compactItems js ++ ']' :: rest) := by
    simp [compact]
  rw [written, Json.value]
  cases js with
  | nil => rfl
  | cons j js =>
    have fits : (compactItems (j :: js)).length < fuel := by
      simp only [compact, List.length_append, List.length_cons, List.length_nil] at enough
      omega
    have read := h.items rest (List.cons_ne_nil j js) writable fits
    rw [compactItems_cons] at read ⊢
    obtain ⟨c, cs, front, visible, other⟩ := exists_compact (writable j List.mem_cons_self) _
    rw [front] at read ⊢
    simp [skipSpace_cons visible, read, other]

theorem ReadsBack.object (h : ReadsBack fuel) {ms : List (Option String × Json)}
    (keyed : ∀ m ∈ ms, m.1 ≠ none) (writable : ∀ m ∈ ms, Writable m.2)
    (enough : (compact (object ms)).length ≤ fuel + 1) (rest : List Char) :
    Json.value (fuel + 1) (compact (object ms) ++ rest) = some (object ms, rest) := by
  have written :
      compact (Json.object ms) ++ rest = '\x7b' :: (compactMembers ms ++ '\x7d' :: rest) := by
    simp [compact]
  rw [written, Json.value]
  cases ms with
  | nil => rfl
  | cons m ms =>
    have fits : (compactMembers (m :: ms)).length < fuel := by
      simp only [compact, List.length_append, List.length_cons, List.length_nil] at enough
      omega
    have read := h.members rest (List.cons_ne_nil m ms) keyed writable fits
    obtain ⟨key | key, v⟩ := m
    · exact absurd rfl (keyed _ List.mem_cons_self)
    · rw [compactMembers_cons] at read ⊢
      rw [skipSpace_cons rfl]
      exact congrArg (Option.map _) read

theorem ReadsBack.value_succ (h : ReadsBack fuel) {j : Json} (rest : List Char)
    (writable : Writable j) (enough : (compact j).length ≤ fuel + 1) (ends : Ends rest) :
    Json.value (fuel + 1) (compact j ++ rest) = some (j, rest) := by
  cases writable with
  | null => exact congrArg (Option.map _) (afterWord?_append "null" rest)
  | bool b =>
    cases b with
    | true => exact congrArg (Option.map _) (afterWord?_append "true" rest)
    | false => exact congrArg (Option.map _) (afterWord?_append "false" rest)
  | number sound => exact value_number sound ends fuel
  | text s => exact value_text s rest fuel
  | array writable => exact h.array writable enough rest
  | object keyed writable => exact h.object keyed writable enough rest

theorem ReadsBack.items_succ (h : ReadsBack fuel) {js : List Json} (rest : List Char)
    (filled : js ≠ []) (writable : ∀ j ∈ js, Writable j)
    (enough : (compactItems js).length < fuel + 1) :
    Json.items (fuel + 1) (compactItems js ++ ']' :: rest) = some (js, rest) := by
  obtain ⟨j, js, rfl⟩ := List.exists_cons_of_ne_nil filled
  obtain ⟨first, others⟩ := List.forall_mem_cons.1 writable
  have shorter := length_behind js (compactItems js) ']' rest
  have length := congrArg List.length (compactItems_cons j js rest)
  simp only [List.length_append, List.length_cons] at length
  have read := h.value _ first (by omega) (ends_behind js (compactItems js) (.inl rfl) rest)
  rw [compactItems_cons, Json.items, read]
  cases js with
  | nil => rfl
  | cons next js =>
    have later : (compactItems (next :: js)).length < fuel := by
      simp [behind] at length
      omega
    have start : skipSpace (compactItems (next :: js) ++ ']' :: rest) =
        compactItems (next :: js) ++ ']' :: rest := by
      rw [compactItems_cons, skipSpace_compact (others next List.mem_cons_self)]
    have read := h.items rest (List.cons_ne_nil next js) others later
    simp [behind, skipSpace_comma, start, read]

theorem ReadsBack.members_succ (h : ReadsBack fuel) {ms : List (Option String × Json)}
    (rest : List Char) (filled : ms ≠ []) (keyed : ∀ m ∈ ms, m.1 ≠ none)
    (writable : ∀ m ∈ ms, Writable m.2) (enough : (compactMembers ms).length < fuel + 1) :
    Json.members (fuel + 1) (compactMembers ms ++ '\x7d' :: rest) = some (ms, rest) := by
  obtain ⟨⟨key | key, v⟩, ms, rfl⟩ := List.exists_cons_of_ne_nil filled
  · exact absurd rfl (keyed _ List.mem_cons_self)
  · obtain ⟨first, others⟩ := List.forall_mem_cons.1 writable
    obtain ⟨-, keys⟩ := List.forall_mem_cons.1 keyed
    have shorter := length_behind ms (compactMembers ms) '\x7d' rest
    have length := congrArg List.length (compactMembers_cons key v ms rest)
    simp only [List.length_append, List.length_cons] at length
    have short : (compact v).length ≤ fuel := by omega
    have read := h.value _ first short (ends_behind ms (compactMembers ms) (.inr rfl) rest)
    have start := skipSpace_compact first (behind ms (compactMembers ms) '\x7d' rest)
    rw [compactMembers_cons, Json.members, stringBody_quote]
    simp only [Option.bind_eq_bind, Option.bind_some, skipSpace_colon, start, read]
    cases ms with
    | nil => rfl
    | cons next ms =>
      have later : (compactMembers (next :: ms)).length < fuel := by
        simp [behind] at length
        omega
      have start : skipSpace (compactMembers (next :: ms) ++ '\x7d' :: rest) =
          compactMembers (next :: ms) ++ '\x7d' :: rest := by
        obtain ⟨key | key, v⟩ := next
        · exact absurd rfl (keys _ List.mem_cons_self)
        · rw [compactMembers_cons, skipSpace_cons rfl]
      have read := h.members rest (List.cons_ne_nil next ms) keys others later
      simp [behind, skipSpace_comma, start, read]

theorem readsBack (fuel : Nat) : ReadsBack fuel := by
  induction fuel with
  | zero =>
    constructor
    · intro j _ writable enough
      have := length_compact_pos writable
      omega
    · intro js _ _ _ enough
      omega
    · intro ms _ _ _ _ enough
      omega
  | succ fuel ih => exact ⟨ih.value_succ, ih.items_succ, ih.members_succ⟩

/-- The compact form of a document is read back as that document. -/
theorem parse?_compactText {j : Json} (h : Writable j) : parse? (compactText j) = some j := by
  have start := skipSpace_compact h []
  have read := (readsBack ((compact j).length + 1)).value [] h (by omega) (by rintro _ ⟨⟩)
  rw [List.append_nil] at start read
  simp only [parse?, compactText, String.toList_ofList, start, read]
  rfl

end Values

end Matchmaker.Json
