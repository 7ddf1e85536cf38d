import SourceBook.Proofs.Text.Encoding

set_option autoImplicit false

namespace SourceBook

namespace Utf8

structure Partial.Bounded (started : Partial) : Prop where
  least : 0x80 ≤ started.least
  greatest : started.greatest ≤ 0xBF

theorem fresh_cases (byte : UInt8) :
    (∃ piece, fresh byte = ⟨[piece], none⟩) ∨
      ∃ started, fresh byte = ⟨[], some started⟩ ∧ started.Bounded := by
  by_cases one : byte.toNat < 0x80
  next => exact .inl ⟨_, fresh_one one⟩
  by_cases stray : byte.toNat < 0xC2 ∨ 0xF5 ≤ byte.toNat
  next => exact .inl ⟨_, fresh_stray (by omega)⟩
  by_cases two : byte.toNat < 0xE0
  next => exact .inr ⟨_, fresh_two (by omega) two, by constructor <;> simp only <;> omega⟩
  by_cases three : byte.toNat < 0xF0
  next =>
    refine .inr ⟨_, fresh_three (by omega) three, ?_⟩
    constructor <;> simp only <;> split <;> omega
  next =>
    refine .inr ⟨_, fresh_four (by omega) (by omega), ?_⟩
    constructor <;> simp only <;> split <;> omega

-- A byte ends the piece under way, goes on with it, or breaks it off and is read afresh.
theorem advance_cases (underWay : Option Partial) (byte : UInt8) :
    (∃ piece, advance underWay byte = ⟨[piece], none⟩) ∨
      (∃ started, advance underWay byte = ⟨[], some started⟩ ∧ started.Bounded) ∨
        advance underWay byte = ⟨.illFormed :: (fresh byte).ended, (fresh byte).underWay⟩ := by
  cases underWay with
  | none =>
    rcases fresh_cases byte with ended | started
    next => exact .inl ended
    next => exact .inr (.inl started)
  | some started =>
    rcases started with ⟨value, owed, least, greatest⟩
    by_cases inside : least ≤ byte.toNat ∧ byte.toNat ≤ greatest
    next =>
      cases owed with
      | zero => exact .inl ⟨_, next_last inside.1 inside.2⟩
      | succ owed =>
        refine .inr (.inl ⟨_, next_more inside.1 inside.2, ?_⟩)
        constructor <;> simp only <;> omega
    next => exact .inr (.inr (if_neg inside))

theorem advance_bounded (underWay : Option Partial) (byte : UInt8) :
    ∀ started ∈ (advance underWay byte).underWay, started.Bounded := by
  have fresh_bounded : ∀ started ∈ (fresh byte).underWay, started.Bounded := by
    rcases fresh_cases byte with ⟨piece, ended⟩ | ⟨started, goesOn, bounded⟩
    next => simp [ended]
    next => simpa [goesOn] using bounded
  rcases advance_cases underWay byte with ⟨piece, ended⟩ | ⟨started, goesOn, bounded⟩ | breaks
  next => simp [ended]
  next => simpa [goesOn] using bounded
  next => rwa [breaks]

theorem exists_first_byte (c : Char) :
    ∃ byte more, encodeChar c = byte :: more ∧ (byte.toNat < 0x80 ∨ 0xC0 ≤ byte.toNat) := by
  have bounds := bounds_of_char c
  have lead {n : Nat} (low : 0xC0 ≤ n) (high : n < 256) : 0xC0 ≤ (UInt8.ofNat n).toNat := by
    rwa [toNat_ofNat_of_lt high]
  rw [encodeChar_eq]
  split
  next one =>
    refine ⟨_, [], rfl, .inl ?_⟩
    rwa [toNat_ofNat_of_lt (by omega)]
  next =>
    split
    next => exact ⟨_, _, rfl, .inr (lead (by omega) (by omega))⟩
    next =>
      split
      next => exact ⟨_, _, rfl, .inr (lead (by omega) (by omega))⟩
      next => exact ⟨_, _, rfl, .inr (lead (by omega) (by omega))⟩

theorem piecesAfter_append_encodeChar {underWay : Option Partial}
    (bounded : ∀ started ∈ underWay, started.Bounded) (front : Bytes) (c : Char) (rest : Bytes) :
    piecesAfter underWay (front ++ (encodeChar c ++ rest)) =
      piecesAfter underWay front ++ piecesAfter none (encodeChar c ++ rest) := by
  induction front generalizing underWay with
  | nil =>
    cases underWay with
    | none => rfl
    | some started =>
      obtain ⟨least, greatest⟩ := bounded started rfl
      obtain ⟨byte, more, whole, first⟩ := exists_first_byte c
      have breaks : advance (some started) byte =
          ⟨.illFormed :: (fresh byte).ended, (fresh byte).underWay⟩ := if_neg (by omega)
      rw [whole, List.nil_append, List.cons_append, piecesAfter, piecesAfter, breaks]
      rfl
  | cons byte front ih =>
    rw [List.cons_append, piecesAfter, piecesAfter, ih (advance_bounded underWay byte),
      List.append_assoc]

theorem pieces_append_flatMap_encodeChar (front : Bytes) (text : List Char) :
    pieces (front ++ text.flatMap encodeChar) = pieces front ++ text.map .char := by
  cases text with
  | nil => simp
  | cons c rest =>
    have nothingUnderWay : ∀ started ∈ (none : Option Partial), started.Bounded := nofun
    rw [← pieces_flatMap_encodeChar, List.flatMap_cons]
    exact piecesAfter_append_encodeChar nothingUnderWay front c _

theorem exists_rest_of_cons {underWay : Option Partial} {bytes : Bytes} {piece : Piece}
    {after : List Piece} (read : piecesAfter underWay bytes = piece :: after) :
    ∃ rest, rest <:+ bytes ∧ pieces rest = after := by
  induction bytes generalizing underWay with
  | nil =>
    cases underWay with
    | none => contradiction
    | some started => exact ⟨[], List.nil_suffix, (List.cons.inj read).2⟩
  | cons byte more ih =>
    rw [piecesAfter] at read
    rcases advance_cases underWay byte with ⟨other, ended⟩ | ⟨started, goesOn, -⟩ | breaks
    next =>
      rw [ended] at read
      exact ⟨more, List.suffix_cons byte more, (List.cons.inj read).2⟩
    next =>
      rw [goesOn] at read
      obtain ⟨rest, suffix, later⟩ := ih read
      exact ⟨rest, suffix.trans (List.suffix_cons byte more), later⟩
    next =>
      rw [breaks] at read
      exact ⟨byte :: more, List.suffix_rfl, (List.cons.inj read).2⟩

theorem exists_rest {bytes : Bytes} {before after : List Piece}
    (read : pieces bytes = before ++ after) : ∃ rest, rest <:+ bytes ∧ pieces rest = after := by
  induction before generalizing bytes with
  | nil => exact ⟨bytes, List.suffix_rfl, read⟩
  | cons piece before ih =>
    obtain ⟨later, laterSuffix, laterRead⟩ := exists_rest_of_cons read
    obtain ⟨rest, suffix, restRead⟩ := ih laterRead
    exact ⟨rest, suffix.trans laterSuffix, restRead⟩

theorem suffix_lossy_of_suffix {bytes : Bytes} {text : String} (ends : encode text <:+ bytes) :
    text.toList <:+ (lossy bytes).toList := by
  obtain ⟨front, rfl⟩ := ends
  rw [lossy, String.toList_ofList, encode, pieces_append_flatMap_encodeChar, List.map_append,
    List.map_map]
  have shown : text.toList.map ((fun piece => piece.char?.getD replacement) ∘ Piece.char) =
      text.toList := by
    simp [Function.comp_def, Piece.char?]
  rw [shown]
  exact List.suffix_append _ _

theorem suffix_of_suffix_lossy {bytes : Bytes} {text : String}
    (plain : replacement ∉ text.toList) (ends : text.toList <:+ (lossy bytes).toList) :
    encode text <:+ bytes := by
  obtain ⟨front, whole⟩ := ends
  rw [lossy, String.toList_ofList, eq_comm, List.map_eq_append_iff] at whole
  obtain ⟨before, after, read, -, shown⟩ := whole
  obtain ⟨rest, suffix, restRead⟩ := exists_rest read
  have wellFormed : .illFormed ∉ pieces rest := by
    intro illFormed
    rw [restRead] at illFormed
    apply plain
    rw [← shown]
    exact List.mem_map_of_mem illFormed
  obtain ⟨chars, rfl⟩ := exists_text_of_wellFormed rest wellFormed
  rw [pieces_flatMap_encodeChar] at restRead
  have same : chars = text.toList := by
    rw [← shown, ← restRead]
    simp [Function.comp_def, Piece.char?]
  rw [encode, ← same]
  exact suffix

theorem suffix_lossy_iff {bytes : Bytes} {text : String} (plain : replacement ∉ text.toList) :
    text.toList <:+ (lossy bytes).toList ↔ encode text <:+ bytes :=
  ⟨suffix_of_suffix_lossy plain, suffix_lossy_of_suffix⟩

end Utf8

end SourceBook
