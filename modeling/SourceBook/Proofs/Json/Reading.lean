import SourceBook.Proofs.Json.Grammar

set_option autoImplicit false

namespace SourceBook

namespace Json

def charOfCode? (code : Nat) : Option Char :=
  if code.isValidChar then some (Char.ofNat code) else none

inductive Scan where
  | between
  | number (value : Nat)
  | text (before : List Char)
  | escape (before : List Char)
  | code (before : List Char) (value : Nat) (owed : Nat)
  deriving DecidableEq

structure Progress where
  ended : List Token
  scan : Scan
  deriving DecidableEq

def start (c : Char) : Option Progress :=
  if isSpace c then some ⟨[], .between⟩
  else if c = '"' then some ⟨[], .text []⟩
  else
    match digit? c with
    | some digit => some ⟨[], .number digit⟩
    | none => (Token.ofChar? c).map fun token => ⟨[token], .between⟩

def Scan.next : Scan → Char → Option Progress
  | between, c => start c
  | number value, c =>
    match digit? c with
    -- No number goes on after a zero at its start.
    | some digit => if value = 0 then none else some ⟨[], number (value * 10 + digit)⟩
    | none => (start c).map fun progress => ⟨.number value :: progress.ended, progress.scan⟩
  | text before, c =>
    if c = '"' then some ⟨[.text (String.ofList before)], between⟩
    else if c = '\\' then some ⟨[], escape before⟩
    else if c.toNat < 0x20 then none
    else some ⟨[], text (before ++ [c])⟩
  | escape before, c =>
    if c = 'u' then some ⟨[], code before 0 3⟩
    else (unescape? c).map fun plain => ⟨[], text (before ++ [plain])⟩
  | code before value owed, c =>
    match hexDigit? c, owed with
    | none, _ => none
    | some digit, owed + 1 => some ⟨[], code before (value * 16 + digit) owed⟩
    | some digit, 0 =>
      (charOfCode? (value * 16 + digit)).map fun plain => ⟨[], text (before ++ [plain])⟩

def Scan.tokens : Scan → List Char → Option (List Token)
  | between, [] => some []
  | number value, [] => some [.number value]
  | text _, [] | escape _, [] | code _ _ _, [] => none
  | scan, c :: rest =>
    match scan.next c with
    | none => none
    | some progress => (progress.scan.tokens rest).map (progress.ended ++ ·)

inductive Opened where
  | list (items : List Json)
  | object (members : List (String × Json)) (name : String)

mutual

def readValue (above : List Opened) : List Token → Option Json
  | .text value :: rest => readOn above (.text value) rest
  | .number value :: rest => readOn above (.number value) rest
  | .openList :: .closeList :: rest => readOn above (.list []) rest
  | .openList :: rest => readValue (.list [] :: above) rest
  | .openObject :: .closeObject :: rest => readOn above (.object []) rest
  | .openObject :: .text name :: .colon :: rest => readValue (.object [] name :: above) rest
  | _ => none

def readOn (above : List Opened) (value : Json) (tokens : List Token) : Option Json :=
  match above, tokens with
  | [], [] => some value
  | .list items :: above, .comma :: rest => readValue (.list (value :: items) :: above) rest
  | .list items :: above, .closeList :: rest => readOn above (.list (value :: items).reverse) rest
  | .object members name :: above, .comma :: .text next :: .colon :: rest =>
    readValue (.object ((name, value) :: members) next :: above) rest
  | .object members name :: above, .closeObject :: rest =>
    readOn above (.object ((name, value) :: members).reverse) rest
  | _, _ => none

end

def read? (text : String) : Option Json :=
  (Scan.between.tokens text.toList).bind (readValue [])

section Scan

theorem charOfCode?_toNat (c : Char) : charOfCode? c.toNat = some c := by
  have valid : c.toNat.isValidChar := c.valid
  rw [charOfCode?, if_pos valid, Char.ofNat_toNat]

theorem tokens_of_spellsChar {front : List Char} {c : Char} (spells : SpellsChar front c)
    (before rest : List Char) :
    (Scan.text before).tokens (front ++ rest) = (Scan.text (before ++ [c])).tokens rest := by
  cases spells with
  | plain quotation backslash control =>
    simp [Scan.tokens, Scan.next, quotation, backslash, control]
  | @letter letter _ named =>
    have other : letter ≠ 'u' := by
      rintro rfl
      cases named
    simp [Scan.tokens, Scan.next, other, named]
  | code first second third fourth code =>
    simp [Scan.tokens, Scan.next, first, second, third, fourth, code, charOfCode?_toNat]

theorem tokens_of_spellsText {body chars : List Char} (spells : SpellsText body chars)
    (before rest : List Char) :
    (Scan.text before).tokens (body ++ rest) = (Scan.text (before ++ chars)).tokens rest := by
  induction spells generalizing before with
  | nil => simp
  | cons first others ih =>
    rw [List.append_assoc, tokens_of_spellsChar first, ih, List.append_assoc]
    rfl

theorem start_mark {c : Char} {token : Token} (marks : Token.ofChar? c = some token) :
    start c = some ⟨[token], .between⟩ := by
  unfold Token.ofChar? at marks
  split at marks <;> cases marks <;> rfl

theorem tokens_of_spellsToken {front : List Char} {token : Token}
    (spells : SpellsToken front token) (rest : List Char) :
    Scan.between.tokens (front ++ rest) = (Scan.between.tokens rest).map (token :: ·) := by
  cases spells with
  | @text body chars spells =>
    have opened : start '"' = some ⟨[], .text []⟩ := rfl
    have inside := tokens_of_spellsText spells [] ('"' :: rest)
    simp [Scan.tokens, Scan.next, opened, inside, Function.comp_def]
  | mark marks => simp [Scan.tokens, Scan.next, start_mark marks]

theorem digit?_digitChar : ∀ n < 10, digit? (Nat.digitChar n) = some n := by decide

theorem start_digitChar : ∀ n < 10, start (Nat.digitChar n) = some ⟨[], .number n⟩ := by decide

theorem tokens_toDigits (value : Nat) (rest : List Char) :
    Scan.between.tokens (Nat.toDigits 10 value ++ rest) = (Scan.number value).tokens rest := by
  induction value using Nat.strongRecOn generalizing rest with
  | ind value ih =>
    by_cases single : value < 10
    next =>
      rw [Nat.toDigits_of_lt_base single]
      simp [Scan.tokens, Scan.next, start_digitChar value single]
    next =>
      have digit := digit?_digitChar (value % 10) (Nat.mod_lt _ (by decide))
      have leading : value / 10 ≠ 0 := by omega
      have parts : value / 10 * 10 + value % 10 = value := by omega
      rw [Nat.toDigits_of_base_le (by decide) (Nat.le_of_not_lt single), List.append_assoc,
        ih (value / 10) (by omega)]
      simp [Scan.tokens, Scan.next, digit, leading, parts]

theorem tokens_number {rest : List Char} (ends : NoDigit rest) (value : Nat) :
    (Scan.number value).tokens rest = (Scan.between.tokens rest).map (.number value :: ·) := by
  cases rest with
  | nil => rfl
  | cons c rest =>
    have noDigit : digit? c = none := ends c rfl
    cases started : start c with
    | none => simp [Scan.tokens, Scan.next, noDigit, started]
    | some progress => simp [Scan.tokens, Scan.next, noDigit, started, Function.comp_def]

theorem tokens_of_spells {chars : List Char} {tokens : List Token}
    (spells : SpellsTokens chars tokens) : Scan.between.tokens chars = some tokens := by
  induction spells with
  | nil => rfl
  | @space c _ _ space rest ih =>
    have started : start c = some ⟨[], .between⟩ := if_pos space
    simp [Scan.tokens, Scan.next, started, ih]
  | token first rest ih => rw [tokens_of_spellsToken first, ih, Option.map_some]
  | number value ends rest ih => rw [tokens_toDigits, tokens_number ends, ih, Option.map_some]

end Scan

section Read

def Reads (value : Json) : Prop :=
  ∀ above rest, readValue above (value.tokens ++ rest) = readOn above value rest

theorem readValue_openList (above : List Opened) (value : Json) (rest : List Token) :
    readValue above (.openList :: (value.tokens ++ rest)) =
      readValue (.list [] :: above) (value.tokens ++ rest) := by
  cases value <;> rfl

theorem intercalate_cons_eq_flatMap (part : List Token) (parts : List (List Token)) :
    [.comma].intercalate (part :: parts) = part ++ parts.flatMap fun next => .comma :: next := by
  induction parts generalizing part with
  | nil => simp
  | cons next rest ih => simp [List.intercalate_cons_cons, ih]

theorem readOn_items {items : List Json} (reads : ∀ item ∈ items, Reads item) (above : List Opened)
    (done : List Json) (item : Json) (rest : List Token) :
    readOn (.list done :: above) item
        ((items.flatMap fun next => .comma :: next.tokens) ++ .closeList :: rest) =
      readOn above (.list (done.reverse ++ item :: items)) rest := by
  induction items generalizing done item with
  | nil =>
    rw [List.flatMap_nil, List.nil_append, readOn, List.reverse_cons]
  | cons next items ih =>
    obtain ⟨readsNext, readsRest⟩ := List.forall_mem_cons.1 reads
    rw [List.flatMap_cons, List.append_assoc, List.cons_append, readOn, readsNext,
      ih readsRest, List.reverse_cons, List.append_assoc]
    rfl

theorem readOn_members {members : List (String × Json)} (reads : ∀ member ∈ members, Reads member.2)
    (above : List Opened) (done : List (String × Json)) (name : String) (value : Json)
    (rest : List Token) :
    readOn (.object done name :: above) value
        ((members.flatMap fun next => .comma :: .text next.1 :: .colon :: next.2.tokens) ++
          .closeObject :: rest) =
      readOn above (.object (done.reverse ++ (name, value) :: members)) rest := by
  induction members generalizing done name value with
  | nil =>
    rw [List.flatMap_nil, List.nil_append, readOn, List.reverse_cons]
  | cons next members ih =>
    obtain ⟨readsNext, readsRest⟩ := List.forall_mem_cons.1 reads
    simp only [List.flatMap_cons, List.append_assoc, List.cons_append]
    rw [readOn, readsNext, ih readsRest, List.reverse_cons, List.append_assoc]
    rfl

theorem reads (value : Json) : Reads value := by
  induction value using Json.induction with
  | text value => exact fun above rest => rfl
  | number value => exact fun above rest => rfl
  | list items ih =>
    intro above rest
    rw [tokens, itemTokens_eq_map]
    cases items with
    | nil => rfl
    | cons item items =>
      obtain ⟨readsItem, readsRest⟩ := List.forall_mem_cons.1 ih
      have opened := readOn_items readsRest above [] item rest
      rw [← readsItem, ← readValue_openList] at opened
      simpa [intercalate_cons_eq_flatMap, List.flatMap_map] using opened
  | object members ih =>
    intro above rest
    rw [tokens, memberTokens_eq_map]
    cases members with
    | nil => rfl
    | cons member members =>
      obtain ⟨readsMember, readsRest⟩ := List.forall_mem_cons.1 ih
      have opened := readOn_members readsRest above [] member.1 member.2 rest
      rw [← readsMember] at opened
      simpa [intercalate_cons_eq_flatMap, List.flatMap_map, readValue] using opened

end Read

theorem read?_of_spells {text : String} {value : Json} (spells : Spells text value) :
    read? text = some value := by
  have read := reads value [] []
  rw [List.append_nil] at read
  rw [read?, tokens_of_spells spells, Option.bind_some, read, readOn]

example : read? "[\x7b\"a\": \"\\u00e9\\n\"\x7d, 10]" =
    some (.list [.object [("a", .text "é\n")], .number 10]) := by
  rfl

end Json

end SourceBook
