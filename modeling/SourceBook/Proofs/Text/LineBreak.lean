import SourceBook.Proofs.Text.Encoding

set_option autoImplicit false

namespace SourceBook

def lineBreak : UInt8 := 10

namespace Utf8

-- A character under way takes no byte of a shorter one, and comes to none itself.
structure Partial.Wide (started : Partial) : Prop where
  least : 0x80 ≤ started.least
  last : started.owed = 0 → 2 ≤ started.value
  more : started.owed ≠ 0 → 2 ≤ started.value * 0x40 + (started.least - 0x80)

def Progress.Wide (progress : Progress) : Prop :=
  ∀ started ∈ progress.underWay, started.Wide

theorem fresh_wide (byte : UInt8) : (fresh byte).Wide := by
  intro started underWay
  by_cases one : byte.toNat < 0x80
  next =>
    rw [fresh_one one] at underWay
    contradiction
  by_cases stray : byte.toNat < 0xC2 ∨ 0xF5 ≤ byte.toNat
  next =>
    rw [fresh_stray (by omega)] at underWay
    contradiction
  by_cases two : byte.toNat < 0xE0
  next =>
    rw [fresh_two (by omega) two, Option.mem_some_iff] at underWay
    subst underWay
    have value : 2 ≤ byte.toNat - 0xC0 := by omega
    exact ⟨Nat.le_refl _, fun _ => value, fun owed => absurd rfl owed⟩
  by_cases three : byte.toNat < 0xF0
  next =>
    rw [fresh_three (by omega) three, Option.mem_some_iff] at underWay
    subst underWay
    refine ⟨?_, nofun, fun _ => ?_⟩ <;> simp only <;> split <;> omega
  next =>
    rw [fresh_four (by omega) (by omega), Option.mem_some_iff] at underWay
    subst underWay
    refine ⟨?_, nofun, fun _ => ?_⟩ <;> simp only <;> split <;> omega

theorem Partial.Wide.next {started : Partial} (wide : started.Wide) (byte : UInt8) :
    (started.next byte).Wide := by
  rcases started with ⟨value, owed, least, greatest⟩
  by_cases inside : least ≤ byte.toNat ∧ byte.toNat ≤ greatest
  next =>
    intro later underWay
    cases owed with
    | zero =>
      rw [next_last inside.1 inside.2] at underWay
      contradiction
    | succ owed =>
      rw [next_more inside.1 inside.2, Option.mem_some_iff] at underWay
      subst underWay
      have low : 0x80 ≤ least := wide.least
      have value : 2 ≤ value * 0x40 + (least - 0x80) := wide.more (Nat.succ_ne_zero owed)
      refine ⟨Nat.le_refl _, fun _ => ?_, fun _ => ?_⟩ <;> simp only <;> omega
  next =>
    rw [Partial.next, if_neg inside]
    exact fresh_wide byte

theorem advance_wide {underWay : Option Partial} (wide : ∀ started ∈ underWay, started.Wide)
    (byte : UInt8) : (advance underWay byte).Wide := by
  cases underWay with
  | none => exact fresh_wide byte
  | some started => exact (wide started rfl).next byte

theorem eq_lineBreak_iff {byte : UInt8} : byte = lineBreak ↔ byte.toNat = 10 :=
  UInt8.toNat_inj.symm

theorem ofNat_ne_newline {n : Nat} (high : 0x80 ≤ n) : Char.ofNat n ≠ '\n' := by
  intro same
  by_cases valid : n.isValidChar
  next =>
    have := toNat_ofNat_of_valid valid
    rw [same] at this
    simp at this
    omega
  next =>
    rw [Char.ofNat, dif_neg valid] at same
    exact absurd same (by decide)

theorem newline_mem_fresh_iff (byte : UInt8) :
    .char '\n' ∈ (fresh byte).ended ↔ byte = lineBreak := by
  rw [eq_lineBreak_iff]
  by_cases one : byte.toNat < 0x80
  next =>
    have value : (Char.ofNat byte.toNat).toNat = byte.toNat :=
      toNat_ofNat_of_valid (.inl (by omega))
    rw [fresh_one one, List.mem_singleton, Piece.char.injEq, ← Char.toNat_inj, value, eq_comm]
    rfl
  have notNewline : byte.toNat ≠ 10 := by omega
  by_cases stray : byte.toNat < 0xC2 ∨ 0xF5 ≤ byte.toNat
  next => rw [fresh_stray (by omega)]; simp [notNewline]
  by_cases two : byte.toNat < 0xE0
  next => rw [fresh_two (by omega) two]; simp [notNewline]
  by_cases three : byte.toNat < 0xF0
  next => rw [fresh_three (by omega) three]; simp [notNewline]
  next => rw [fresh_four (by omega) (by omega)]; simp [notNewline]

theorem lineBreak_mem_ended_iff {underWay : Option Partial}
    (wide : ∀ started ∈ underWay, started.Wide) (byte : UInt8) :
    .char '\n' ∈ (advance underWay byte).ended ↔ byte = lineBreak := by
  cases underWay with
  | none => exact newline_mem_fresh_iff byte
  | some started =>
    obtain ⟨least, last, -⟩ := wide started rfl
    rcases started with ⟨value, owed, lower, upper⟩
    by_cases inside : lower ≤ byte.toNat ∧ byte.toNat ≤ upper
    next =>
      have notNewline : byte ≠ lineBreak := mt eq_lineBreak_iff.1 (by simp only at least; omega)
      cases owed with
      | zero =>
        have wideValue : 2 ≤ value := last rfl
        have other := ofNat_ne_newline (show 0x80 ≤ value * 0x40 + (byte.toNat - 0x80) by omega)
        rw [advance, next_last inside.1 inside.2]
        simp [notNewline, other.symm]
      | succ owed =>
        rw [advance, next_more inside.1 inside.2]
        simp [notNewline]
    next =>
      rw [advance, Partial.next, if_neg inside, List.mem_cons, newline_mem_fresh_iff]
      simp

theorem lineBreak_mem_piecesAfter_iff {underWay : Option Partial}
    (wide : ∀ started ∈ underWay, started.Wide) (bytes : Bytes) :
    .char '\n' ∈ piecesAfter underWay bytes ↔ lineBreak ∈ bytes := by
  induction bytes generalizing underWay with
  | nil => cases underWay <;> simp [piecesAfter]
  | cons byte rest ih =>
    rw [piecesAfter, List.mem_append, List.mem_cons, lineBreak_mem_ended_iff wide,
      ih (advance_wide wide byte), eq_comm]

theorem lineBreak_mem_lossy_iff (bytes : Bytes) :
    '\n' ∈ (lossy bytes).toList ↔ lineBreak ∈ bytes := by
  have nothingUnderWay : ∀ started ∈ (none : Option Partial), started.Wide := nofun
  rw [← lineBreak_mem_piecesAfter_iff nothingUnderWay, lossy, String.toList_ofList, List.mem_map,
    pieces]
  constructor
  next =>
    rintro ⟨piece, member, shown⟩
    cases piece with
    | char c => exact shown ▸ member
    | illFormed => contradiction
  next => exact fun member => ⟨_, member, rfl⟩

end Utf8

end SourceBook
