import Mathlib.Data.Set.Function
import SourceBook.Proofs.Document.Block
import SourceBook.Proofs.Text.Encoding

set_option autoImplicit false

namespace SourceBook

namespace Section

theorem toList_text (piece : Section) :
    piece.text.toList = (opener piece.path).toList ++ piece.contents.toList ++ closer.toList := by
  simp [text]

def file (piece : Section) : Bytes × String :=
  (Utf8.encode piece.path, piece.contents)

end Section

namespace Document

theorem sections_cons (found : Located) (later : Reading) :
    (Reading.mk (found :: later.found) later.failure).sections =
      later.sections.map (found.piece :: ·) := by
  simp only [Reading.sections]
  cases later.failure <;> rfl

theorem opener?_text {piece : Section} (oneLine : Section.OneLine piece.path) (rest : List Char) :
    opener? (piece.text.toList ++ rest) =
      some (piece.path.toList, piece.contents.toList ++ Section.closer.toList ++ rest) := by
  rw [Section.toList_text, List.append_assoc, List.append_assoc, ← List.append_assoc _ _ rest]
  exact opener?_opener oneLine _

theorem body_of_text {piece other : Section} (oneLine : Section.OneLine piece.path)
    (otherOneLine : Section.OneLine other.path) {rest otherRest : List Char}
    (same : piece.text.toList ++ rest = other.text.toList ++ otherRest) :
    piece.path = other.path ∧
      piece.contents.toList ++ Section.closer.toList ++ rest =
        other.contents.toList ++ Section.closer.toList ++ otherRest := by
  have opened := opener?_text oneLine rest
  rw [same, opener?_text otherOneLine, Option.some.injEq, Prod.mk.injEq, String.toList_inj]
    at opened
  exact ⟨opened.1.symm, opened.2.symm⟩

theorem resumes_text {pieces : List Section}
    (oneLine : ∀ piece ∈ pieces, Section.OneLine piece.path) {rest : List Char}
    (resumes : Resumes rest) :
    Resumes ((pieces.flatMap fun piece => piece.text.toList) ++ rest) := by
  cases pieces with
  | nil => exact resumes
  | cons piece others =>
    rw [List.flatMap_cons, List.append_assoc]
    exact .inr ⟨_, _, opener?_text (oneLine piece List.mem_cons_self) _⟩

theorem splitBlock?_text {piece : Section} {rest : List Char}
    (seamless : ¬Section.HoldsSeam piece.contents) (resumes : Resumes rest) :
    splitBlock? [] (piece.contents.toList ++ Section.closer.toList ++ rest) =
      some (piece.contents.toList, rest) := by
  refine splitBlock?_eq_some_iff_not_holdsSeam.2 ⟨rfl, resumes, ?_⟩
  rwa [String.ofList_toList]

theorem recoverable_iff {piece : Section} :
    piece.Recoverable ↔ '\n' ∉ piece.path.toList ∧
      splitBlock? [] (piece.contents.toList ++ Section.closer.toList) =
        some (piece.contents.toList, []) := by
  rw [← List.append_nil (piece.contents.toList ++ Section.closer.toList),
    splitBlock?_eq_some_iff_not_holdsSeam, String.ofList_toList]
  simp only [Section.Recoverable, Section.OneLine, Resumes, true_or, true_and]

instance : DecidablePred Section.Recoverable :=
  fun _ => decidable_of_iff _ recoverable_iff.symm

theorem block_read {text path body contents after : List Char}
    (opened : opener? text = some (path, body))
    (closed : splitBlock? [] body = some (contents, after)) :
    let piece : Section := ⟨String.ofList path, String.ofList contents⟩
    text = piece.text.toList ++ after ∧ piece.Recoverable ∧ Resumes after := by
  obtain ⟨oneLine, rfl⟩ := eq_opener_append opened
  obtain ⟨rfl, resumes, seamless⟩ := splitBlock?_eq_some_iff_not_holdsSeam.1 closed
  refine ⟨?_, ⟨oneLine, seamless⟩, resumes⟩
  rw [Section.toList_text, String.toList_ofList]
  simp only [List.append_assoc]

theorem readFrom_nil (position : Nat) : readFrom position [] = ⟨[], none⟩ := by
  rw [readFrom, if_pos rfl]

theorem readFrom_block {position : Nat} {text path body contents after : List Char}
    (opened : opener? text = some (path, body))
    (closed : splitBlock? [] body = some (contents, after)) :
    readFrom position text =
      let found : Located := ⟨position, String.ofList path, String.ofList contents⟩
      let later := readFrom found.stop after
      ⟨found :: later.found, later.failure⟩ := by
  rw [readFrom]
  split
  next empty =>
    subst empty
    contradiction
  next =>
    split
    next unopened => rw [opened] at unopened; contradiction
    next _ _ again =>
      rw [opened] at again
      obtain ⟨rfl, rfl⟩ := Prod.mk.inj (Option.some.inj again)
      split
      next unclosed => rw [closed] at unclosed; contradiction
      next _ _ again =>
        rw [closed] at again
        obtain ⟨rfl, rfl⟩ := Prod.mk.inj (Option.some.inj again)
        rfl

theorem readFrom_unopened {position : Nat} {text : List Char} (nonempty : text ≠ [])
    (unopened : opener? text = none) :
    readFrom position text = ⟨[], some ⟨position, .missingOpener⟩⟩ := by
  rw [readFrom, if_neg nonempty]
  split
  next => rfl
  next _ _ opened => rw [unopened] at opened; contradiction

theorem readFrom_unclosed {position : Nat} {text path body : List Char}
    (opened : opener? text = some (path, body)) (unclosed : splitBlock? [] body = none) :
    readFrom position text =
      let path := String.ofList path
      ⟨[], some ⟨position + (Section.opener path).utf8ByteSize, .unterminated path⟩⟩ := by
  rw [readFrom]
  split
  next empty =>
    subst empty
    contradiction
  next =>
    split
    next unopened => rw [opened] at unopened; contradiction
    next _ _ again =>
      rw [opened] at again
      obtain ⟨rfl, rfl⟩ := Prod.mk.inj (Option.some.inj again)
      split
      next => rfl
      next _ _ closed => rw [unclosed] at closed; contradiction

theorem stop_eq (found : Located) :
    found.stop = found.start + found.piece.text.utf8ByteSize := by
  simp only [Located.stop, Located.contentEnd, Located.contentStart, Section.text,
    String.utf8ByteSize_append, Nat.add_assoc]

theorem sections_readFrom_text (position : Nat) {pieces : List Section}
    (recoverable : ∀ piece ∈ pieces, piece.Recoverable) {rest : List Char}
    (resumes : Resumes rest) :
    (readFrom position ((pieces.flatMap fun piece => piece.text.toList) ++ rest)).sections =
      (readFrom (position + (String.join (pieces.map Section.text)).utf8ByteSize) rest).sections.map
        (pieces ++ ·) := by
  induction pieces generalizing position with
  | nil =>
    simp only [List.flatMap_nil, List.nil_append, List.map_nil, String.join_nil,
      String.utf8ByteSize_empty, Nat.add_zero]
    cases (readFrom position rest).sections <;> rfl
  | cons piece others ih =>
    obtain ⟨oneLine, seamless⟩ := recoverable piece List.mem_cons_self
    have othersRecoverable : ∀ other ∈ others, other.Recoverable :=
      fun other member => recoverable other (List.mem_cons_of_mem _ member)
    have following := resumes_text (fun other member => (othersRecoverable other member).1) resumes
    have here : Located.stop ⟨position, piece⟩ = position + piece.text.utf8ByteSize :=
      stop_eq ⟨position, piece⟩
    rw [List.flatMap_cons, List.append_assoc,
      readFrom_block (opener?_text oneLine _) (splitBlock?_text seamless following),
      sections_cons, String.ofList_toList, String.ofList_toList]
    simp only [here, ih _ othersRecoverable, List.map_cons, String.join_cons,
      String.utf8ByteSize_append, Nat.add_assoc]
    cases (readFrom _ rest).sections <;> rfl

theorem text_of_sections_readFrom {position : Nat} {text : List Char} {pieces : List Section}
    (read : (readFrom position text).sections = .ok pieces) :
    text = (pieces.flatMap fun piece => piece.text.toList) ∧
      ∀ piece ∈ pieces, piece.Recoverable := by
  fun_induction readFrom position text generalizing pieces with
  | case1 =>
    cases read
    exact ⟨rfl, nofun⟩
  | case2 => contradiction
  | case3 => contradiction
  | case4 position text _ path body opened name contents after closed _ found later =>
    rename_i ih
    rw [sections_cons] at read
    cases rest : later.sections with
    | error problem => rw [rest] at read; contradiction
    | ok pieces =>
      rw [rest] at read
      cases read
      obtain ⟨rfl, recoverable⟩ := ih rest
      obtain ⟨whole, here, -⟩ := block_read opened closed
      exact ⟨whole, List.forall_mem_cons.2 ⟨here, recoverable⟩⟩

theorem text_ofSections_toList (pieces : List Section) :
    (ofSections pieces).text.toList =
      header.toList ++ pieces.flatMap fun piece => piece.text.toList := by
  rw [text_ofSections, String.toList_append, String.toList_join, List.flatMap_map]

theorem sections_eq_ok_iff {text : String} {pieces : List Section} :
    sections text = .ok pieces ↔
      text = (ofSections pieces).text ∧ ∀ piece ∈ pieces, piece.Recoverable := by
  rw [sections, read, ← String.toList_inj, text_ofSections_toList, ← dropStart?_eq_some_iff]
  cases start : dropStart? header.toList text.toList with
  | none => exact ⟨nofun, fun written => absurd written.1 (by simp)⟩
  | some rest =>
    simp only [Option.some.injEq]
    constructor
    next => exact text_of_sections_readFrom
    next =>
      rintro ⟨rfl, recoverable⟩
      have read := sections_readFrom_text header.utf8ByteSize recoverable (.inl rfl)
      rw [List.append_nil, readFrom_nil] at read
      simpa [Reading.sections, Except.map] using read

theorem sections_ofFiles_eq_ok_iff (files : List (Bytes × String)) :
    sections (ofFiles files).text =
        .ok (files.map fun file => ⟨Utf8.lossy file.1, file.2⟩) ↔
      ∀ file ∈ files,
        Section.OneLine (Utf8.lossy file.1) ∧ ¬Section.HoldsSeam file.2 := by
  rw [ofFiles_eq_ofSections]
  apply sections_eq_ok_iff.trans
  simp only [Section.ofFile, true_and, List.forall_mem_map, Section.Recoverable]

theorem ofFiles_file (pieces : List Section) :
    ofFiles (pieces.map Section.file) = ofSections pieces := by
  have shown (piece : Section) : Section.ofFile piece.file.1 piece.file.2 = piece := by
    rw [Section.ofFile, Section.file, Utf8.lossy_encode]
  rw [ofFiles_eq_ofSections, List.map_map]
  exact congrArg ofSections (List.map_id'' shown pieces)

theorem sections_bijective :
    (∀ (text : String) (pieces : List Section), sections text = .ok pieces ↔
      (ofFiles (pieces.map Section.file)).text = text ∧
        ∀ piece ∈ pieces, Section.OneLine piece.path ∧ ¬Section.HoldsSeam piece.contents) ∧
    Set.BijOn (fun pieces : List Section => (ofFiles (pieces.map Section.file)).text)
      {pieces | ∀ piece ∈ pieces, piece.Recoverable}
      {text | ∃ pieces, sections text = .ok pieces} := by
  have accepted (text : String) (pieces : List Section) : sections text = .ok pieces ↔
      (ofFiles (pieces.map Section.file)).text = text ∧ ∀ piece ∈ pieces, piece.Recoverable := by
    rw [ofFiles_file, eq_comm (b := text)]
    exact sections_eq_ok_iff
  refine ⟨accepted, ?_, ?_, ?_⟩
  next =>
    intro pieces recoverable
    exact ⟨pieces, (accepted _ _).2 ⟨rfl, recoverable⟩⟩
  next =>
    intro first firstRecoverable second secondRecoverable same
    have read := (accepted _ _).2 ⟨same, firstRecoverable⟩
    rw [(accepted _ _).2 ⟨rfl, secondRecoverable⟩] at read
    exact (Except.ok.inj read).symm
  next =>
    rintro text ⟨pieces, read⟩
    obtain ⟨rfl, recoverable⟩ := (accepted _ _).1 read
    exact ⟨pieces, recoverable, rfl⟩

end Document

end SourceBook
