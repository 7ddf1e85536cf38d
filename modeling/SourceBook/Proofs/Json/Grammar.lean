import Mathlib.Data.List.Forall2
import SourceBook.Json

set_option autoImplicit false

namespace SourceBook

namespace Json

@[elab_as_elim]
theorem induction {motive : Json → Prop} (text : ∀ value, motive (text value))
    (number : ∀ value, motive (number value))
    (list : ∀ items, (∀ item ∈ items, motive item) → motive (list items))
    (object : ∀ members, (∀ member ∈ members, motive member.2) → motive (object members))
    (value : Json) : motive value :=
  @rec motive (fun items => ∀ item ∈ items, motive item)
    (fun members => ∀ member ∈ members, motive member.2) (fun member => motive member.2)
    text number list object
    nofun (fun _ _ first rest => List.forall_mem_cons.2 ⟨first, rest⟩)
    nofun (fun _ _ first rest => List.forall_mem_cons.2 ⟨first, rest⟩)
    (fun _ _ value => value) value

theorem renderItems_eq_map (margin : String) (items : List Json) :
    renderItems margin items = items.map (render margin) := by
  induction items with
  | nil => rfl
  | cons item rest ih => rw [renderItems, ih, List.map_cons]

theorem renderMembers_eq_map (margin : String) (members : List (String × Json)) :
    renderMembers margin members =
      members.map fun member => quote member.1 ++ ": " ++ render margin member.2 := by
  induction members with
  | nil => rfl
  | cons member rest ih => rw [renderMembers, ih, List.map_cons]

inductive Token where
  | text (value : String)
  | number (value : Nat)
  | comma
  | colon
  | openList
  | closeList
  | openObject
  | closeObject
  deriving DecidableEq

def Token.ofChar? : Char → Option Token
  | ',' => some comma
  | ':' => some colon
  | '[' => some openList
  | ']' => some closeList
  | '\x7b' => some openObject
  | '\x7d' => some closeObject
  | _ => none

mutual

def tokens : Json → List Token
  | text value => [.text value]
  | number value => [.number value]
  | list items => .openList :: ([.comma].intercalate (itemTokens items) ++ [.closeList])
  | object members =>
    .openObject :: ([.comma].intercalate (memberTokens members) ++ [.closeObject])

def itemTokens : List Json → List (List Token)
  | [] => []
  | item :: rest => item.tokens :: itemTokens rest

def memberTokens : List (String × Json) → List (List Token)
  | [] => []
  | (name, value) :: rest => (.text name :: .colon :: value.tokens) :: memberTokens rest

end

theorem itemTokens_eq_map (items : List Json) : itemTokens items = items.map tokens := by
  induction items with
  | nil => rfl
  | cons item rest ih => rw [itemTokens, ih, List.map_cons]

theorem memberTokens_eq_map (members : List (String × Json)) :
    memberTokens members =
      members.map fun member => .text member.1 :: .colon :: member.2.tokens := by
  induction members with
  | nil => rfl
  | cons member rest ih => rw [memberTokens, ih, List.map_cons]

def digit? (c : Char) : Option Nat :=
  if '0' ≤ c ∧ c ≤ '9' then some (c.toNat - '0'.toNat) else none

def hexDigit? (c : Char) : Option Nat :=
  if 'a' ≤ c ∧ c ≤ 'f' then some (c.toNat - 'a'.toNat + 10)
  else if 'A' ≤ c ∧ c ≤ 'F' then some (c.toNat - 'A'.toNat + 10)
  else digit? c

def unescape? : Char → Option Char
  | '"' => some '"'
  | '\\' => some '\\'
  | '/' => some '/'
  | 'b' => some '\x08'
  | 'f' => some '\x0c'
  | 'n' => some '\n'
  | 'r' => some '\r'
  | 't' => some '\t'
  | _ => none

/-- A pair of codes for one character is not among the spellings. -/
inductive SpellsChar : List Char → Char → Prop where
  | plain {c : Char} (quotation : c ≠ '"') (backslash : c ≠ '\\') (control : ¬c.toNat < 0x20) :
      SpellsChar [c] c
  | letter {letter c : Char} (named : unescape? letter = some c) : SpellsChar ['\\', letter] c
  | code {first second third fourth c : Char} {a b d e : Nat}
      (firstDigit : hexDigit? first = some a) (secondDigit : hexDigit? second = some b)
      (thirdDigit : hexDigit? third = some d) (fourthDigit : hexDigit? fourth = some e)
      (code : ((a * 16 + b) * 16 + d) * 16 + e = c.toNat) :
      SpellsChar ['\\', 'u', first, second, third, fourth] c

inductive SpellsText : List Char → List Char → Prop where
  | nil : SpellsText [] []
  | cons {front back chars : List Char} {c : Char} (first : SpellsChar front c)
      (rest : SpellsText back chars) : SpellsText (front ++ back) (c :: chars)

inductive SpellsToken : List Char → Token → Prop where
  | text {body chars : List Char} (spells : SpellsText body chars) :
      SpellsToken ('"' :: (body ++ ['"'])) (.text (String.ofList chars))
  | mark {c : Char} {token : Token} (marks : Token.ofChar? c = some token) : SpellsToken [c] token

def NoDigit (chars : List Char) : Prop := ∀ c, chars.head? = some c → digit? c = none

theorem noDigit_cons {c : Char} (other : digit? c = none) (rest : List Char) :
    NoDigit (c :: rest) := by
  rintro _ ⟨⟩
  exact other

theorem NoDigit.append {first second : List Char} (noDigit : NoDigit first)
    (noDigitToo : NoDigit second) : NoDigit (first ++ second) := by
  cases first with
  | nil => exact noDigitToo
  | cons c rest => exact noDigit

def isSpace (c : Char) : Bool := c ∈ [' ', '\t', '\n', '\r']

inductive SpellsTokens : List Char → List Token → Prop where
  | nil : SpellsTokens [] []
  | space {c : Char} {chars : List Char} {tokens : List Token} (space : isSpace c)
      (rest : SpellsTokens chars tokens) : SpellsTokens (c :: chars) tokens
  | token {front chars : List Char} {token : Token} {tokens : List Token}
      (first : SpellsToken front token) (rest : SpellsTokens chars tokens) :
      SpellsTokens (front ++ chars) (token :: tokens)
  | number {chars : List Char} {tokens : List Token} (value : Nat) (ends : NoDigit chars)
      (rest : SpellsTokens chars tokens) :
      SpellsTokens (Nat.toDigits 10 value ++ chars) (.number value :: tokens)

def Spells (text : String) (value : Json) : Prop := SpellsTokens text.toList value.tokens

section Render

theorem hexDigit?_hexDigit : ∀ n < 16, hexDigit? (hexDigit n) = some n := by decide

theorem spellsChar_escapeChar (c : Char) : SpellsChar (escapeChar c) c := by
  by_cases lettered : c ∈ ['"', '\\', '\x08', '\t', '\n', '\x0c', '\r']
  next =>
    simp only [List.mem_cons, List.not_mem_nil, or_false] at lettered
    rcases lettered with rfl | rfl | rfl | rfl | rfl | rfl | rfl <;> exact .letter rfl
  next =>
    simp only [List.mem_cons, List.not_mem_nil, or_false, not_or] at lettered
    by_cases control : c.toNat < 0x20
    next =>
      have high := hexDigit?_hexDigit (c.toNat / 0x10) (by omega)
      have low := hexDigit?_hexDigit (c.toNat % 0x10) (Nat.mod_lt _ (by decide))
      have zero : hexDigit? '0' = some 0 := by decide
      have escaped := SpellsChar.code zero zero high low (c := c) (by omega)
      simpa [escapeChar, lettered, control] using escaped
    next =>
      have plain := SpellsChar.plain lettered.1 lettered.2.1 control
      simpa [escapeChar, lettered, control] using plain

theorem spellsText_flatMap (chars : List Char) : SpellsText (chars.flatMap escapeChar) chars := by
  induction chars with
  | nil => exact .nil
  | cons c rest ih => exact .cons (spellsChar_escapeChar c) ih

def SpellsBefore (chars : List Char) (tokens : List Token) : Prop :=
  ∀ rest others, NoDigit rest → SpellsTokens rest others →
    SpellsTokens (chars ++ rest) (tokens ++ others)

theorem spellsBefore_nil : SpellsBefore [] [] := fun _ _ _ spells => spells

theorem SpellsBefore.append {first second : List Char} {tokens others : List Token}
    (before : SpellsBefore first tokens) (after : SpellsBefore second others)
    (noDigit : NoDigit second) : SpellsBefore (first ++ second) (tokens ++ others) := by
  intro rest remaining ends spells
  rw [List.append_assoc, List.append_assoc]
  exact before _ _ (noDigit.append ends) (after _ _ ends spells)

theorem SpellsBefore.space {c : Char} {chars : List Char} {tokens : List Token}
    (before : SpellsBefore chars tokens) (space : isSpace c) : SpellsBefore (c :: chars) tokens :=
  fun _ _ ends spells => .space space (before _ _ ends spells)

theorem SpellsBefore.mark {c : Char} {token : Token} {chars : List Char} {tokens : List Token}
    (before : SpellsBefore chars tokens) (marks : Token.ofChar? c = some token) :
    SpellsBefore (c :: chars) (token :: tokens) := by
  intro rest others ends spells
  have spelled := (before rest others ends spells).token (.mark marks)
  exact spelled

theorem spellsBefore_quote (value : String) : SpellsBefore (quote value).toList [.text value] := by
  intro rest others _ spells
  have text := SpellsToken.text (spellsText_flatMap value.toList)
  simpa [quote] using spells.token text

theorem spellsBefore_repr (value : Nat) : SpellsBefore value.repr.toList [.number value] := by
  intro rest others ends spells
  rw [Nat.toList_repr]
  exact spells.number value ends

def Blank (chars : List Char) : Prop := ∀ c ∈ chars, c = ' '

theorem Blank.deeper {margin : String} (blank : Blank margin.toList) :
    Blank (margin ++ "  ").toList := by
  rw [Blank, String.toList_append, List.forall_mem_append]
  exact ⟨blank, List.forall_mem_cons.2 ⟨rfl, List.forall_mem_singleton.2 rfl⟩⟩

theorem SpellsBefore.indent {margin chars : List Char} {tokens : List Token}
    (before : SpellsBefore chars tokens) (blank : Blank margin) :
    SpellsBefore (margin ++ chars) tokens := by
  induction margin with
  | nil => exact before
  | cons c rest ih =>
    obtain ⟨first, others⟩ := List.forall_mem_cons.1 blank
    subst first
    exact (ih others).space rfl

theorem spellsBefore_lines {margin : String} (blank : Blank margin.toList)
    {entries : List String} {parts : List (List Token)}
    (before : List.Forall₂ (fun entry part => SpellsBefore entry.toList part) entries parts) :
    SpellsBefore (String.intercalate ",\n" (entries.map (margin ++ ·))).toList
      ([.comma].intercalate parts) := by
  induction before with
  | nil => exact spellsBefore_nil
  | cons first rest ih =>
    have line := first.indent blank
    cases rest with
    | nil => simpa using line
    | cons next rest =>
      have below : SpellsBefore (',' :: '\n' :: _) (.comma :: _) := (ih.space rfl).mark rfl
      have whole := line.append below (noDigit_cons rfl _)
      simpa using whole

theorem spellsBefore_enclose {opening closing margin : String} {first last : Char}
    {opens closes : Token} (opened : Token.ofChar? first = some opens)
    (closed : Token.ofChar? last = some closes) (opensWith : opening.toList = [first])
    (closesWith : closing.toList = [last]) (blank : Blank margin.toList) {entries : List String}
    {parts : List (List Token)}
    (before : List.Forall₂ (fun entry part => SpellsBefore entry.toList part) entries parts) :
    SpellsBefore (enclose opening closing margin entries).toList
      (opens :: ([.comma].intercalate parts ++ [closes])) := by
  have bottom := spellsBefore_nil.mark closed
  rw [enclose]
  split
  next none =>
    subst none
    cases before
    simpa [opensWith, closesWith] using bottom.mark opened
  next some =>
    have lines := spellsBefore_lines blank.deeper before
    have below : SpellsBefore ('\n' :: _) _ := (bottom.indent blank).space rfl
    have inside : SpellsBefore ('\n' :: _) _ := (lines.append below (noDigit_cons rfl _)).space rfl
    simpa [opensWith, closesWith] using inside.mark opened

theorem spellsBefore_render (value : Json) {margin : String} (blank : Blank margin.toList) :
    SpellsBefore (render margin value).toList value.tokens := by
  induction value using Json.induction generalizing margin with
  | text value => exact spellsBefore_quote value
  | number value => exact spellsBefore_repr value
  | list items ih =>
    have before : List.Forall₂ (fun entry part => SpellsBefore entry.toList part)
        (items.map (render (margin ++ "  "))) (items.map tokens) := by
      rw [List.forall₂_map_left_iff, List.forall₂_map_right_iff, List.forall₂_same]
      exact fun item member => ih item member blank.deeper
    rw [render, tokens, renderItems_eq_map, itemTokens_eq_map]
    exact spellsBefore_enclose rfl rfl rfl rfl blank before
  | object members ih =>
    have before : List.Forall₂ (fun entry part => SpellsBefore entry.toList part)
        (members.map fun member => quote member.1 ++ ": " ++ render (margin ++ "  ") member.2)
        (members.map fun member => .text member.1 :: .colon :: member.2.tokens) := by
      rw [List.forall₂_map_left_iff, List.forall₂_map_right_iff, List.forall₂_same]
      intro member present
      have named : SpellsBefore (':' :: ' ' :: _) (.colon :: _) :=
        ((ih member present blank.deeper).space rfl).mark rfl
      have whole := (spellsBefore_quote member.1).append named (noDigit_cons rfl _)
      simpa using whole
    rw [render, tokens, renderMembers_eq_map, memberTokens_eq_map]
    exact spellsBefore_enclose rfl rfl rfl rfl blank before

theorem spells_render (value : Json) : Spells (render "" value) value := by
  have before := spellsBefore_render value (show Blank "".toList from nofun) [] [] nofun .nil
  simpa [Spells] using before

end Render

end Json

end SourceBook
