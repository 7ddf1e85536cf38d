import Mathlib.Order.Bounds.Defs
import SourceBook.Proofs.Text.Suffix
import SourceBook.Text.Places

set_option autoImplicit false

namespace SourceBook

section Occurs

variable {α : Type} {part : List α}

def Occurs (part whole : List α) (place : Nat) : Prop :=
  ∃ before after, whole = before ++ part ++ after ∧ before.length = place

theorem occurs_zero_iff {whole : List α} :
    Occurs part whole 0 ↔ ∃ after, whole = part ++ after := by
  constructor
  next =>
    rintro ⟨before, after, whole, size⟩
    rw [List.length_eq_zero_iff.1 size] at whole
    exact ⟨after, whole⟩
  next =>
    rintro ⟨after, whole⟩
    exact ⟨[], after, whole, rfl⟩

theorem occurs_succ_iff {rest : List α} {head : α} {place : Nat} :
    Occurs part (head :: rest) (place + 1) ↔ Occurs part rest place := by
  constructor
  next =>
    rintro ⟨before, after, whole, size⟩
    cases before with
    | nil => contradiction
    | cons first before =>
      exact ⟨before, after, (List.cons.inj whole).2, Nat.succ.inj size⟩
  next =>
    rintro ⟨before, after, rfl, rfl⟩
    exact ⟨head :: before, after, rfl, rfl⟩

theorem not_occurs_nil (nonempty : part ≠ []) (place : Nat) : ¬Occurs part [] place := by
  rintro ⟨before, after, whole, -⟩
  simp [nonempty] at whole

variable [DecidableEq α]

theorem firstPlace?_spec (part whole : List α) :
    match firstPlace? part whole with
    | some place => IsLeast {place | Occurs part whole place} place
    | none => ∀ place, ¬Occurs part whole place := by
  induction whole with
  | nil =>
    rw [firstPlace?]
    by_cases empty : part = []
    next =>
      rw [if_pos empty]
      exact ⟨occurs_zero_iff.2 ⟨[], by rw [empty]; rfl⟩, fun _ _ => Nat.zero_le _⟩
    next =>
      rw [if_neg empty]
      exact not_occurs_nil empty
  | cons head rest ih =>
    rw [firstPlace?]
    cases start : dropStart? part (head :: rest) with
    | some after =>
      exact ⟨occurs_zero_iff.2 ⟨after, dropStart?_eq_some_iff.1 start⟩, fun _ _ => Nat.zero_le _⟩
    | none =>
      have notHere : ¬Occurs part (head :: rest) 0 := by
        rintro here
        obtain ⟨after, whole⟩ := occurs_zero_iff.1 here
        rw [dropStart?_eq_some_iff.2 whole] at start
        contradiction
      cases found : firstPlace? part rest with
      | some place =>
        rw [found] at ih
        refine ⟨occurs_succ_iff.2 ih.1, ?_⟩
        rintro (_ | other) occurs
        next => exact absurd occurs notHere
        next => exact Nat.succ_le_succ (ih.2 (occurs_succ_iff.1 occurs))
      | none =>
        rw [found] at ih
        rintro (_ | place) occurs
        next => exact notHere occurs
        next => exact ih place (occurs_succ_iff.1 occurs)

end Occurs

namespace Utf8

theorem isContinuation_iff {byte : UInt8} :
    isContinuation byte ↔ 0x80 ≤ byte.toNat ∧ byte.toNat < 0xC0 :=
  decide_eq_true_iff

theorem isContinuation_of_mem {owed value : Nat} {byte : UInt8}
    (member : byte ∈ continuation owed value) : isContinuation byte := by
  induction owed with
  | zero => cases member
  | succ owed ih =>
    rw [continuation_succ, List.mem_cons] at member
    rcases member with rfl | later
    next =>
      rw [isContinuation_iff, toNat_ofNat_of_lt (by omega)]
      omega
    next => exact ih later

theorem exists_tail_encodeChar (c : Char) :
    ∃ owed, (encodeChar c).tail = continuation owed c.toNat := by
  rw [encodeChar_eq]
  split
  next => exact ⟨0, rfl⟩
  next =>
    split
    next => exact ⟨1, rfl⟩
    next =>
      split
      next => exact ⟨2, rfl⟩
      next => exact ⟨3, rfl⟩

theorem exists_lead (c : Char) :
    ∃ lead more, encodeChar c = lead :: more ∧ isContinuation lead = false ∧
      ∀ byte ∈ more, isContinuation byte := by
  obtain ⟨lead, more, whole, first⟩ := exists_first_byte c
  obtain ⟨owed, tail⟩ := exists_tail_encodeChar c
  refine ⟨lead, more, whole, ?_, ?_⟩
  next =>
    rw [← Bool.not_eq_true, isContinuation_iff]
    omega
  next =>
    rw [whole, List.tail_cons] at tail
    rw [tail]
    exact fun byte member => isContinuation_of_mem member

theorem isBoundary_add (front back : Bytes) (place : Nat) :
    isBoundary (front ++ back) (front.length + place) = isBoundary back place := by
  rw [isBoundary, isBoundary, List.getElem?_append_right (Nat.le_add_right _ _),
    Nat.add_sub_cancel_left]
  cases back[place]? with
  | some byte => rfl
  | none =>
    rw [Bool.eq_iff_iff]
    simp

theorem isBoundary_zero (text : List Char) : isBoundary (text.flatMap encodeChar) 0 := by
  cases text with
  | nil => rfl
  | cons c rest =>
    obtain ⟨lead, more, whole, starts, -⟩ := exists_lead c
    simp [isBoundary, whole, starts]

theorem isBoundary_inside {c : Char} {rest : Bytes} {place : Nat} (behind : 0 < place)
    (inside : place < (encodeChar c).length) : isBoundary (encodeChar c ++ rest) place = false := by
  obtain ⟨lead, more, whole, -, continues⟩ := exists_lead c
  rw [isBoundary, List.getElem?_append_left inside]
  obtain ⟨place, rfl⟩ := Nat.exists_eq_succ_of_ne_zero (Nat.ne_of_gt behind)
  rw [whole, List.length_cons] at inside
  have within : place < more.length := by omega
  simp [whole, within, continues]

theorem exists_split_of_isBoundary {text : List Char} {place : Nat}
    (boundary : isBoundary (text.flatMap encodeChar) place) :
    ∃ front back, text = front ++ back ∧ (front.flatMap encodeChar).length = place := by
  induction text generalizing place with
  | nil =>
    have atEnd : place = 0 := Nat.le_zero.1 (le_of_isBoundary boundary)
    exact ⟨[], [], rfl, atEnd.symm⟩
  | cons c rest ih =>
    rw [List.flatMap_cons] at boundary
    by_cases start : place = 0
    next => exact ⟨[], c :: rest, rfl, start.symm⟩
    next =>
      by_cases inside : place < (encodeChar c).length
      next =>
        rw [isBoundary_inside (Nat.pos_of_ne_zero start) inside] at boundary
        contradiction
      next =>
        obtain ⟨more, rfl⟩ := Nat.exists_eq_add_of_le (Nat.le_of_not_lt inside)
        rw [isBoundary_add] at boundary
        obtain ⟨front, back, rfl, rfl⟩ := ih boundary
        exact ⟨c :: front, back, rfl, by rw [List.flatMap_cons, List.length_append]⟩

theorem exists_rest_of_flatMap {front text : List Char} {rest : Bytes}
    (whole : text.flatMap encodeChar = front.flatMap encodeChar ++ rest) :
    ∃ back, text = front ++ back ∧ rest = back.flatMap encodeChar := by
  induction front generalizing text with
  | nil => exact ⟨text, rfl, whole.symm⟩
  | cons c front ih =>
    rw [List.flatMap_cons, List.append_assoc] at whole
    cases text with
    | nil => simp [encodeChar_ne_nil] at whole
    | cons first text =>
      rw [List.flatMap_cons] at whole
      have read := congrArg (piecesAfter none) whole
      rw [piecesAfter_encodeChar, piecesAfter_encodeChar, List.cons.injEq, Piece.char.injEq] at read
      rw [read.1, List.append_cancel_left_eq] at whole
      obtain ⟨back, rfl, rfl⟩ := ih whole
      exact ⟨back, by rw [read.1]; rfl, rfl⟩

theorem isBoundary_iff {text : String} {place : Nat} :
    isBoundary (encode text) place ↔
      ∃ front back, text = front ++ back ∧ front.utf8ByteSize = place := by
  constructor
  next =>
    intro boundary
    obtain ⟨front, back, whole, rfl⟩ := exists_split_of_isBoundary boundary
    refine ⟨String.ofList front, String.ofList back, ?_, ?_⟩
    next => rw [← String.ofList_append, ← whole, String.ofList_toList]
    next => rw [← length_encode, encode, String.toList_ofList]
  next =>
    rintro ⟨front, back, rfl, rfl⟩
    rw [encode_append, ← length_encode, ← Nat.add_zero (encode front).length, isBoundary_add]
    exact isBoundary_zero back.toList

theorem cuttable_iff {text : String} {place : Nat} :
    Cuttable text place ↔ ∃ front back, text = front ++ back ∧ front.utf8ByteSize = place := by
  rw [← isBoundary_iff]
  constructor
  next => exact Cuttable.boundary
  next =>
    intro boundary
    exact ⟨length_encode text ▸ le_of_isBoundary boundary, boundary⟩

theorem before?_eq_some_iff {text front : String} {place : Nat} :
    before? text place = some front ↔ ∃ back, text = front ++ back ∧ front.utf8ByteSize = place := by
  rw [before?]
  constructor
  next =>
    intro cut
    split at cut
    next boundary =>
      obtain ⟨other, back, rfl, rfl⟩ := isBoundary_iff.1 boundary
      rw [encode_append, ← length_encode, List.take_left, decode?_encode, Option.some.injEq] at cut
      exact ⟨back, by rw [cut], by rw [cut]⟩
    next => contradiction
  next =>
    rintro ⟨back, rfl, rfl⟩
    rw [if_pos (isBoundary_iff.2 ⟨front, back, rfl, rfl⟩), encode_append, ← length_encode,
      List.take_left, decode?_encode]

theorem behind?_eq_some_iff {text back : String} {place : Nat} :
    behind? text place = some back ↔ ∃ front, text = front ++ back ∧ front.utf8ByteSize = place := by
  rw [behind?]
  constructor
  next =>
    intro cut
    split at cut
    next boundary =>
      obtain ⟨front, other, rfl, rfl⟩ := isBoundary_iff.1 boundary
      rw [encode_append, ← length_encode, List.drop_left, decode?_encode, Option.some.injEq] at cut
      exact ⟨front, by rw [cut], rfl⟩
    next => contradiction
  next =>
    rintro ⟨front, rfl, rfl⟩
    rw [if_pos (isBoundary_iff.2 ⟨front, back, rfl, rfl⟩), encode_append, ← length_encode,
      List.drop_left, decode?_encode]

theorem behind?_add (front rest : String) (place : Nat) :
    behind? (front ++ rest) (front.utf8ByteSize + place) = behind? rest place := by
  rw [behind?, behind?, encode_append, ← length_encode, isBoundary_add, List.drop_length_add_append]

theorem exists_texts_of_encode {text part : String} {before after : Bytes} (nonempty : part ≠ "")
    (whole : encode text = before ++ encode part ++ after) :
    ∃ front back, text = front ++ part ++ back ∧ before = encode front ∧ after = encode back := by
  rw [List.append_assoc] at whole
  have boundary : isBoundary (encode text) before.length := by
    obtain ⟨c, rest, chars⟩ := List.exists_cons_of_ne_nil (mt String.toList_eq_nil_iff.1 nonempty)
    obtain ⟨lead, more, lead_eq, starts, -⟩ := exists_lead c
    rw [whole, ← Nat.add_zero before.length, isBoundary_add, encode, chars, List.flatMap_cons,
      lead_eq]
    simp [isBoundary, starts]
  obtain ⟨front, rest, rfl, size⟩ := isBoundary_iff.1 boundary
  rw [encode_append] at whole
  obtain ⟨rfl, behind⟩ := List.append_inj whole (by rw [length_encode, size])
  obtain ⟨back, split, rfl⟩ := exists_rest_of_flatMap behind
  refine ⟨front, String.ofList back, ?_, rfl, ?_⟩
  next =>
    rw [String.append_assoc]
    congr 1
    rw [← String.toList_inj, String.toList_append, String.toList_ofList, split]
  next => rw [encode, String.toList_ofList]

theorem find?_spec {part : String} (nonempty : part ≠ "") (text : String) :
    match find? part text with
    | some place => IsLeast
        {place | ∃ before after, text = before ++ part ++ after ∧ before.utf8ByteSize = place} place
    | none => ∀ before after, text ≠ before ++ part ++ after := by
  have occurs (place : Nat) : Occurs (encode part) (encode text) place ↔
      ∃ before after, text = before ++ part ++ after ∧ before.utf8ByteSize = place := by
    constructor
    next =>
      rintro ⟨before, after, whole, rfl⟩
      obtain ⟨front, back, rfl, rfl, rfl⟩ := exists_texts_of_encode nonempty whole
      exact ⟨front, back, rfl, (length_encode front).symm⟩
    next =>
      rintro ⟨before, after, rfl, rfl⟩
      exact ⟨encode before, encode after, by rw [encode_append, encode_append],
        length_encode before⟩
  have spec := firstPlace?_spec (encode part) (encode text)
  rw [find?]
  cases found : firstPlace? (encode part) (encode text) with
  | some place =>
    rw [found] at spec
    simpa only [occurs] using spec
  | none =>
    rw [found] at spec
    intro before after whole
    exact spec _ ((occurs _).2 ⟨before, after, whole, rfl⟩)

end Utf8

end SourceBook
