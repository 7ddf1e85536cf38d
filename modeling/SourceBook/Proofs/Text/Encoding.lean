import Mathlib.Algebra.Group.Nat.Defs
import SourceBook.Text.Utf8

set_option autoImplicit false

namespace SourceBook

namespace Utf8

theorem toNat_ofNat_of_valid {n : Nat} (valid : n.isValidChar) : (Char.ofNat n).toNat = n := by
  rw [Char.ofNat, dif_pos valid]
  rfl

theorem bounds_of_char (c : Char) : c.toNat < 0xD800 ∨ 0xDFFF < c.toNat ∧ c.toNat < 0x110000 :=
  c.valid

theorem toNat_ofNat_of_lt {n : Nat} (small : n < 256) : (UInt8.ofNat n).toNat = n := by
  rw [UInt8.toNat_ofNat', Nat.mod_eq_of_lt small]

def continuation : Nat → Nat → Bytes
  | 0, _ => []
  | owed + 1, value => .ofNat (0x80 + value / 0x40 ^ owed % 0x40) :: continuation owed value

theorem continuation_succ (owed value : Nat) :
    continuation (owed + 1) value =
      .ofNat (0x80 + value / 0x40 ^ owed % 0x40) :: continuation owed value :=
  rfl

theorem encodeChar_eq (c : Char) :
    encodeChar c =
      if c.toNat < 0x80 then [.ofNat c.toNat]
      else if c.toNat < 0x800 then .ofNat (0xC0 + c.toNat / 0x40) :: continuation 1 c.toNat
      else if c.toNat < 0x10000 then
        .ofNat (0xE0 + c.toNat / 0x1000) :: continuation 2 c.toNat
      else .ofNat (0xF0 + c.toNat / 0x40000) :: continuation 3 c.toNat := by
  simp [encodeChar, continuation]

theorem next_last {value least greatest : Nat} {byte : UInt8} (low : least ≤ byte.toNat)
    (high : byte.toNat ≤ greatest) :
    (⟨value, 0, least, greatest⟩ : Partial).next byte =
      ⟨[.char (Char.ofNat (value * 0x40 + (byte.toNat - 0x80)))], none⟩ := by
  rw [Partial.next, if_pos ⟨low, high⟩]

theorem next_more {value owed least greatest : Nat} {byte : UInt8} (low : least ≤ byte.toNat)
    (high : byte.toNat ≤ greatest) :
    (⟨value, owed + 1, least, greatest⟩ : Partial).next byte =
      ⟨[], some ⟨value * 0x40 + (byte.toNat - 0x80), owed, 0x80, 0xBF⟩⟩ := by
  rw [Partial.next, if_pos ⟨low, high⟩]

theorem inside_of_wellFormed {value owed least greatest : Nat} {byte : UInt8} {rest : Bytes}
    (wellFormed :
      .illFormed ∉ piecesAfter (some ⟨value, owed, least, greatest⟩) (byte :: rest)) :
    least ≤ byte.toNat ∧ byte.toNat ≤ greatest := by
  refine Decidable.byContradiction fun outside => wellFormed ?_
  rw [piecesAfter, advance, Partial.next, if_neg outside]
  exact List.mem_append_left _ List.mem_cons_self

theorem piecesAfter_continuation (owed : Nat) (c : Char) (least greatest : Nat) (rest : Bytes)
    (low : least ≤ 0x80 + c.toNat / 0x40 ^ owed % 0x40)
    (high : 0x80 + c.toNat / 0x40 ^ owed % 0x40 ≤ greatest) :
    piecesAfter (some ⟨c.toNat / 0x40 ^ (owed + 1), owed, least, greatest⟩)
        (continuation (owed + 1) c.toNat ++ rest) =
      .char c :: piecesAfter none rest := by
  induction owed generalizing least greatest with
  | zero =>
    have byte := toNat_ofNat_of_lt (show 0x80 + c.toNat / 0x40 ^ 0 % 0x40 < 256 by omega)
    have whole : c.toNat / 0x40 ^ 1 * 0x40 + c.toNat / 0x40 ^ 0 % 0x40 = c.toNat := by omega
    rw [continuation_succ, List.cons_append, piecesAfter, advance,
      next_last (by rwa [byte]) (by rwa [byte]), byte, Nat.add_sub_cancel_left, whole,
      Char.ofNat_toNat]
    rfl
  | succ owed ih =>
    have byte :=
      toNat_ofNat_of_lt (show 0x80 + c.toNat / 0x40 ^ (owed + 1) % 0x40 < 256 by omega)
    have digits : c.toNat / 0x40 ^ (owed + 1 + 1) * 0x40 + c.toNat / 0x40 ^ (owed + 1) % 0x40 =
        c.toNat / 0x40 ^ (owed + 1) := by
      rw [Nat.pow_succ 0x40 (owed + 1), ← Nat.div_div_eq_div_mul]
      omega
    rw [continuation_succ, List.cons_append, piecesAfter, advance,
      next_more (by rwa [byte]) (by rwa [byte]), byte, Nat.add_sub_cancel_left, digits]
    exact ih 0x80 0xBF (by omega) (by omega)

theorem fresh_one {byte : UInt8} (high : byte.toNat < 0x80) :
    fresh byte = ⟨[.char (Char.ofNat byte.toNat)], none⟩ := by
  rw [fresh, if_pos high]

theorem fresh_stray {byte : UInt8}
    (stray : 0x80 ≤ byte.toNat ∧ byte.toNat < 0xC2 ∨ 0xF5 ≤ byte.toNat) :
    fresh byte = ⟨[.illFormed], none⟩ := by
  rw [fresh, if_neg (by omega)]
  split
  next => rfl
  next => rw [if_neg (by omega), if_neg (by omega), if_neg (by omega)]

theorem fresh_two {byte : UInt8} (low : 0xC2 ≤ byte.toNat) (high : byte.toNat < 0xE0) :
    fresh byte = ⟨[], some ⟨byte.toNat - 0xC0, 0, 0x80, 0xBF⟩⟩ := by
  rw [fresh, if_neg (by omega), if_neg (by omega), if_pos high]

theorem fresh_three {byte : UInt8} (low : 0xE0 ≤ byte.toNat) (high : byte.toNat < 0xF0) :
    fresh byte =
      ⟨[], some ⟨byte.toNat - 0xE0, 1, if byte.toNat = 0xE0 then 0xA0 else 0x80,
        if byte.toNat = 0xED then 0x9F else 0xBF⟩⟩ := by
  rw [fresh, if_neg (by omega), if_neg (by omega), if_neg (by omega), if_pos high]

theorem fresh_four {byte : UInt8} (low : 0xF0 ≤ byte.toNat) (high : byte.toNat < 0xF5) :
    fresh byte =
      ⟨[], some ⟨byte.toNat - 0xF0, 2, if byte.toNat = 0xF0 then 0x90 else 0x80,
        if byte.toNat = 0xF4 then 0x8F else 0xBF⟩⟩ := by
  rw [fresh, if_neg (by omega), if_neg (by omega), if_neg (by omega), if_neg (by omega),
    if_pos high]

theorem piecesAfter_encodeChar (c : Char) (rest : Bytes) :
    piecesAfter none (encodeChar c ++ rest) = .char c :: piecesAfter none rest := by
  have bounds := bounds_of_char c
  rw [encodeChar_eq]
  split
  next one =>
    have lead := toNat_ofNat_of_lt (show c.toNat < 256 by omega)
    rw [List.singleton_append, piecesAfter, advance, fresh_one (by omega), lead, Char.ofNat_toNat]
    rfl
  next notOne =>
    split
    next two =>
      have lead := toNat_ofNat_of_lt (show 0xC0 + c.toNat / 0x40 < 256 by omega)
      rw [List.cons_append, piecesAfter, advance, fresh_two (by omega) (by omega), lead,
        Nat.add_sub_cancel_left]
      refine piecesAfter_continuation 0 c _ _ rest ?_ ?_ <;> omega
    next notTwo =>
      split
      next three =>
        have lead := toNat_ofNat_of_lt (show 0xE0 + c.toNat / 0x1000 < 256 by omega)
        rw [List.cons_append, piecesAfter, advance, fresh_three (by omega) (by omega), lead,
          Nat.add_sub_cancel_left]
        refine piecesAfter_continuation 1 c _ _ rest ?_ ?_ <;> split <;> omega
      next four =>
        have lead := toNat_ofNat_of_lt (show 0xF0 + c.toNat / 0x40000 < 256 by omega)
        rw [List.cons_append, piecesAfter, advance, fresh_four (by omega) (by omega), lead,
          Nat.add_sub_cancel_left]
        refine piecesAfter_continuation 2 c _ _ rest ?_ ?_ <;> split <;> omega

theorem continuation_of_wellFormed (owed value least greatest : Nat) (bytes : Bytes)
    (least_ge : 0x80 ≤ least) (greatest_le : greatest ≤ 0xBF)
    (wellFormed : .illFormed ∉ piecesAfter (some ⟨value, owed, least, greatest⟩) bytes) :
    ∃ whole rest, bytes = continuation (owed + 1) whole ++ rest ∧
      whole / 0x40 ^ (owed + 1) = value ∧ least ≤ 0x80 + whole / 0x40 ^ owed % 0x40 ∧
      0x80 + whole / 0x40 ^ owed % 0x40 ≤ greatest := by
  induction owed generalizing value least greatest bytes with
  | zero =>
    cases bytes with
    | nil => simp [piecesAfter] at wellFormed
    | cons byte rest =>
      obtain ⟨low, high⟩ := inside_of_wellFormed wellFormed
      have above : (value * 0x40 + (byte.toNat - 0x80)) / 0x40 ^ 1 = value := by omega
      have digit : 0x80 + (value * 0x40 + (byte.toNat - 0x80)) / 0x40 ^ 0 % 0x40 = byte.toNat := by
        omega
      refine ⟨value * 0x40 + (byte.toNat - 0x80), rest, ?_, above, ?_⟩
      next => rw [continuation_succ, digit, UInt8.ofNat_toNat]; rfl
      next => rw [digit]; exact ⟨low, high⟩
  | succ owed ih =>
    cases bytes with
    | nil => simp [piecesAfter] at wellFormed
    | cons byte rest =>
      obtain ⟨low, high⟩ := inside_of_wellFormed wellFormed
      rw [piecesAfter, advance, next_more low high] at wellFormed
      obtain ⟨whole, later, rfl, reached, -, -⟩ :=
        ih _ 0x80 0xBF rest (by omega) (by omega) wellFormed
      have above : whole / 0x40 ^ (owed + 1 + 1) = value := by
        rw [Nat.pow_succ 0x40 (owed + 1), ← Nat.div_div_eq_div_mul, reached]
        omega
      have digit : 0x80 + whole / 0x40 ^ (owed + 1) % 0x40 = byte.toNat := by
        rw [reached]
        omega
      refine ⟨whole, later, ?_, above, ?_⟩
      next => rw [continuation_succ (owed + 1), digit, UInt8.ofNat_toNat, List.cons_append]
      next => rw [digit]; exact ⟨low, high⟩

theorem encodeChar_of_wellFormed {byte : UInt8} {rest : Bytes}
    (wellFormed : .illFormed ∉ piecesAfter none (byte :: rest)) :
    ∃ c later, byte :: rest = encodeChar c ++ later := by
  rw [piecesAfter, advance] at wellFormed
  by_cases one : byte.toNat < 0x80
  next =>
    have value : (Char.ofNat byte.toNat).toNat = byte.toNat :=
      toNat_ofNat_of_valid (.inl (by omega))
    refine ⟨Char.ofNat byte.toNat, rest, ?_⟩
    rw [encodeChar_eq, value, if_pos one, UInt8.ofNat_toNat]
    rfl
  by_cases stray : byte.toNat < 0xC2 ∨ 0xF5 ≤ byte.toNat
  next =>
    rw [fresh_stray (by omega)] at wellFormed
    exact absurd List.mem_cons_self wellFormed
  by_cases two : byte.toNat < 0xE0
  next =>
    rw [fresh_two (by omega) two] at wellFormed
    obtain ⟨whole, later, rfl, above, -, -⟩ :=
      continuation_of_wellFormed _ _ _ _ _ (by omega) (by omega) wellFormed
    have value : (Char.ofNat whole).toNat = whole := toNat_ofNat_of_valid (.inl (by omega))
    have lead : 0xC0 + whole / 0x40 = byte.toNat := by omega
    refine ⟨Char.ofNat whole, later, ?_⟩
    rw [encodeChar_eq, value, if_neg (by omega), if_pos (by omega), lead, UInt8.ofNat_toNat]
    rfl
  by_cases three : byte.toNat < 0xF0
  next =>
    rw [fresh_three (by omega) three] at wellFormed
    obtain ⟨whole, later, rfl, above, low, high⟩ :=
      continuation_of_wellFormed _ _ _ _ _ (by split <;> omega) (by split <;> omega) wellFormed
    have value : (Char.ofNat whole).toNat = whole := by
      apply toNat_ofNat_of_valid
      simp only [Nat.isValidChar]
      split at high <;> omega
    have lead : 0xE0 + whole / 0x1000 = byte.toNat := by omega
    refine ⟨Char.ofNat whole, later, ?_⟩
    rw [encodeChar_eq, value, if_neg _, if_neg _, if_pos _, lead, UInt8.ofNat_toNat]
    rfl
    all_goals split at low <;> omega
  next =>
    rw [fresh_four (by omega) (by omega)] at wellFormed
    obtain ⟨whole, later, rfl, above, low, high⟩ :=
      continuation_of_wellFormed _ _ _ _ _ (by split <;> omega) (by split <;> omega) wellFormed
    have value : (Char.ofNat whole).toNat = whole := by
      apply toNat_ofNat_of_valid
      simp only [Nat.isValidChar]
      split at low <;> split at high <;> omega
    have lead : 0xF0 + whole / 0x40000 = byte.toNat := by omega
    refine ⟨Char.ofNat whole, later, ?_⟩
    rw [encodeChar_eq, value, if_neg _, if_neg _, if_neg _, lead, UInt8.ofNat_toNat]
    rfl
    all_goals split at low <;> omega

theorem pieces_flatMap_encodeChar (text : List Char) :
    pieces (text.flatMap encodeChar) = text.map .char := by
  induction text with
  | nil => rfl
  | cons c rest ih =>
    rw [List.flatMap_cons, pieces, piecesAfter_encodeChar, List.map_cons]
    exact congrArg _ ih

theorem exists_text_of_wellFormed (bytes : Bytes) (wellFormed : .illFormed ∉ pieces bytes) :
    ∃ text : List Char, bytes = text.flatMap encodeChar := by
  induction size : bytes.length using Nat.strongRecOn generalizing bytes with
  | ind _ ih =>
    cases bytes with
    | nil => exact ⟨[], rfl⟩
    | cons byte rest =>
      obtain ⟨c, later, whole⟩ := encodeChar_of_wellFormed wellFormed
      rw [whole, pieces, piecesAfter_encodeChar, List.mem_cons, not_or] at wellFormed
      have shorter : later.length < (byte :: rest).length := by
        have := List.length_pos_iff.2 (encodeChar_ne_nil c)
        rw [whole, List.length_append]
        omega
      obtain ⟨text, rfl⟩ := ih _ (size ▸ shorter) later wellFormed.2 rfl
      exact ⟨c :: text, whole⟩

@[simp] theorem decode?_encode (text : String) : decode? (encode text) = some text := by
  have chars : (text.toList.map Piece.char).filterMap Piece.char? = text.toList := by
    simp [List.filterMap_map, Function.comp_def, Piece.char?]
  rw [decode?, encode, pieces_flatMap_encodeChar, if_neg (by simp), chars, String.ofList_toList]

theorem encode_injective {first second : String} (same : encode first = encode second) :
    first = second := by
  have read := decode?_encode first
  rw [same, decode?_encode, Option.some.injEq] at read
  exact read.symm

theorem decode?_eq_some_iff {bytes : Bytes} {text : String} :
    decode? bytes = some text ↔ bytes = encode text := by
  constructor
  next =>
    intro read
    have wellFormed : .illFormed ∉ pieces bytes := by
      intro illFormed
      rw [decode?, if_pos illFormed] at read
      contradiction
    obtain ⟨chars, rfl⟩ := exists_text_of_wellFormed bytes wellFormed
    have whole : encode (String.ofList chars) = chars.flatMap encodeChar := by
      rw [encode, String.toList_ofList]
    rw [← whole, decode?_encode, Option.some.injEq] at read
    rw [← whole, read]
  next => rintro rfl; exact decode?_encode text

@[simp] theorem lossy_encode (text : String) : lossy (encode text) = text :=
  lossy_of_decode? (decode?_encode text)

theorem encodeChar_eq_utf8EncodeChar (c : Char) : encodeChar c = String.utf8EncodeChar c := by
  have bounds := bounds_of_char c
  simp only [encodeChar, String.utf8EncodeChar, Char.toNat_val]
  by_cases one : c.toNat < 0x80
  next => rw [if_pos one, if_pos (by omega)]
  by_cases two : c.toNat < 0x800
  next =>
    rw [if_neg one, if_pos two, if_neg (by omega), if_pos (by omega),
      Nat.mod_eq_of_lt (show c.toNat / 64 < 32 by omega)]
    simp only [Nat.add_comm]
  by_cases three : c.toNat < 0x10000
  next =>
    rw [if_neg one, if_neg two, if_pos three, if_neg (by omega), if_neg (by omega),
      if_pos (by omega), Nat.mod_eq_of_lt (show c.toNat / 4096 < 16 by omega)]
    simp only [Nat.add_comm]
  next =>
    rw [if_neg one, if_neg two, if_neg three, if_neg (by omega), if_neg (by omega),
      if_neg (by omega), Nat.mod_eq_of_lt (show c.toNat / 262144 < 8 by omega)]
    simp only [Nat.add_comm]

theorem length_encode (text : String) : (encode text).length = text.utf8ByteSize := by
  have bytes : encode text = text.toList.flatMap String.utf8EncodeChar :=
    congrArg text.toList.flatMap (funext encodeChar_eq_utf8EncodeChar)
  rw [bytes, ← String.size_toByteArray, ← String.utf8Encode_toList, List.utf8Encode,
    List.size_toByteArray]

end Utf8

end SourceBook
