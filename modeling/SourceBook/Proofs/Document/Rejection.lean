import SourceBook.Proofs.Document.RoundTrip

set_option autoImplicit false

namespace SourceBook

namespace Document

def Opens (text : String) : Prop :=
  ∃ path body, Section.OneLine path ∧ text = Section.opener path ++ body

def Unclosed (text : String) : Prop :=
  ∀ before after, text = before ++ Section.closer ++ after → after ≠ "" ∧ ¬Opens after

inductive Rejected : String → Nat → String → Prop where
  | headless {text : String} (missing : ∀ rest, text ≠ header ++ rest) :
    Rejected text 0 "expected header '# Go Source Files'"
  | unopened {rest : String} (nonempty : rest ≠ "") (noOpener : ¬Opens rest) :
    Rejected (header ++ rest) header.utf8ByteSize
      "expected section heading followed by an opening fence"
  | unclosed {start path rest : String} {pieces : List Section} (read : sections start = .ok pieces)
    (oneLine : Section.OneLine path) (unclosed : Unclosed rest) :
    Rejected (start ++ Section.opener path ++ rest) (start ++ Section.opener path).utf8ByteSize
      ("unterminated code block for '" ++ path ++ "'")

theorem opens_iff {text : String} :
    Opens text ↔ ∃ path body, opener? text.toList = some (path, body) := by
  constructor
  next =>
    rintro ⟨path, body, oneLine, rfl⟩
    rw [String.toList_append, opener?_opener oneLine]
    exact ⟨_, _, rfl⟩
  next =>
    rintro ⟨path, body, opened⟩
    obtain ⟨oneLine, whole⟩ := eq_opener_append opened
    refine ⟨String.ofList path, String.ofList body, oneLine, ?_⟩
    rw [← String.toList_inj, String.toList_append, String.toList_ofList, whole]

theorem resumes_toList {text : String} : Resumes text.toList ↔ text = "" ∨ Opens text := by
  rw [Resumes, String.toList_eq_nil_iff, opens_iff]

theorem splitBlock?_of_blockEnd? {text after : List Char} (ended : blockEnd? text = some after) :
    splitBlock? [] text = some ([], after) := by
  cases text with
  | nil => contradiction
  | cons head rest => rw [splitBlock?_cons, ended]

theorem splitBlock?_eq_none_iff {text : List Char} :
    splitBlock? [] text = none ↔
      ∀ before after, text = before ++ Section.closer.toList ++ after → ¬Resumes after := by
  constructor
  next =>
    intro unclosed before after whole resumes
    induction before generalizing text with
    | nil =>
      rw [splitBlock?_of_blockEnd? (blockEnd?_eq_some_iff.2 ⟨whole, resumes⟩)] at unclosed
      contradiction
    | cons head before ih =>
      subst whole
      rw [List.cons_append, List.cons_append, splitBlock?_cons] at unclosed
      split at unclosed
      next => contradiction
      next => exact ih (Option.map_eq_none_iff.1 unclosed) rfl
  next =>
    intro never
    rw [Option.eq_none_iff_forall_ne_some]
    intro block closed
    obtain ⟨whole, resumes, -⟩ := splitBlock?_eq_some_iff.1 closed
    exact never _ _ whole resumes

theorem unclosed_iff {text : String} : Unclosed text ↔ splitBlock? [] text.toList = none := by
  rw [splitBlock?_eq_none_iff]
  constructor
  next =>
    intro unclosed before after whole resumes
    have split : text = String.ofList before ++ Section.closer ++ String.ofList after := by
      simp [← String.toList_inj, whole]
    obtain ⟨nonempty, noOpener⟩ := unclosed _ _ split
    rw [← String.toList_ofList (l := after), resumes_toList] at resumes
    exact resumes.elim nonempty noOpener
  next =>
    intro never before after whole
    subst whole
    have := never before.toList after.toList (by simp)
    rwa [resumes_toList, not_or] at this

theorem sections_header (rest : String) :
    sections (header ++ rest) = (readFrom header.utf8ByteSize rest.toList).sections := by
  rw [sections, read, String.toList_append, dropStart?_append]

theorem sections_headless {text : String} (missing : ∀ rest, text ≠ header ++ rest) :
    sections text = .error ⟨0, .missingHeader⟩ := by
  rw [sections, read]
  split
  next => rfl
  next rest start =>
    refine absurd ?_ (missing (String.ofList rest))
    rw [← String.toList_inj, String.toList_append, String.toList_ofList]
    exact dropStart?_eq_some_iff.1 start

theorem sections_append {start rest : String} {pieces : List Section}
    (accepted : sections start = .ok pieces) (resumes : Resumes rest.toList) :
    sections (start ++ rest) =
      (readFrom start.utf8ByteSize rest.toList).sections.map (pieces ++ ·) := by
  obtain ⟨rfl, recoverable⟩ := sections_eq_ok_iff.1 accepted
  rw [text_ofSections, String.append_assoc, sections_header, String.toList_append,
    String.toList_join, List.flatMap_map, sections_readFrom_text _ recoverable resumes,
    String.utf8ByteSize_append]

structure Unfinished (text : List Char) (pieces : List Section) (path : String)
    (body : List Char) : Prop where
  whole : text = (pieces.flatMap fun piece => piece.text.toList) ++
    ((Section.opener path).toList ++ body)
  recoverable : ∀ piece ∈ pieces, piece.Recoverable
  oneLine : Section.OneLine path
  unclosed : splitBlock? [] body = none

theorem Unfinished.cons {rest body : List Char} {pieces : List Section} {path : String}
    (unfinished : Unfinished rest pieces path body) {piece : Section}
    (recoverable : piece.Recoverable) :
    Unfinished (piece.text.toList ++ rest) (piece :: pieces) path body where
  whole := by rw [unfinished.whole, List.flatMap_cons, List.append_assoc]
  recoverable := List.forall_mem_cons.2 ⟨recoverable, unfinished.recoverable⟩
  oneLine := unfinished.oneLine
  unclosed := unfinished.unclosed

theorem eq_of_readFrom_eq_error {position : Nat} {text : List Char} {problem : Malformed}
    (failed : (readFrom position text).sections = .error problem) :
    (text ≠ [] ∧ opener? text = none ∧ problem = ⟨position, .missingOpener⟩) ∨
      ∃ pieces path body, Unfinished text pieces path body ∧
        problem = ⟨position + (String.join (pieces.map Section.text)).utf8ByteSize +
          (Section.opener path).utf8ByteSize, .unterminated path⟩ := by
  fun_induction readFrom position text with
  | case1 => contradiction
  | case2 position text nonempty unopened =>
    cases failed
    exact .inl ⟨nonempty, unopened, rfl⟩
  | case3 position text nonempty path body opened name unclosed =>
    cases failed
    obtain ⟨oneLine, whole⟩ := eq_opener_append opened
    exact .inr ⟨[], name, body, ⟨whole, List.forall_mem_nil _, oneLine, unclosed⟩, by simp⟩
  | case4 position text _ path body opened name contents after closed _ found later =>
    rename_i ih
    rw [sections_cons] at failed
    cases rest : later.sections with
    | ok pieces => rw [rest] at failed; contradiction
    | error refused =>
      rw [rest] at failed
      cases failed
      obtain ⟨whole, recoverable, resumes⟩ := block_read opened closed
      rcases ih rest with ⟨nonempty, unopened, -⟩ | ⟨pieces, inner, last, unfinished, rfl⟩
      next =>
        -- A block is closed only where the next section can be opened.
        rcases resumes with rfl | ⟨_, _, opened⟩
        next => exact absurd rfl nonempty
        next => rw [unopened] at opened; contradiction
      next =>
        refine .inr ⟨found.piece :: pieces, inner, last, whole ▸ unfinished.cons recoverable, ?_⟩
        rw [stop_eq, List.map_cons, String.join_cons, String.utf8ByteSize_append, ← Nat.add_assoc]

theorem sections_unclosed {start path rest : String} {pieces : List Section}
    (accepted : sections start = .ok pieces) (oneLine : Section.OneLine path)
    (unclosed : Unclosed rest) :
    sections (start ++ Section.opener path ++ rest) =
      .error ⟨(start ++ Section.opener path).utf8ByteSize, .unterminated path⟩ := by
  have opened : opener? (Section.opener path ++ rest).toList = some (path.toList, rest.toList) := by
    rw [String.toList_append, opener?_opener oneLine]
  rw [String.append_assoc, sections_append accepted (.inr ⟨_, _, opened⟩),
    readFrom_unclosed opened (unclosed_iff.1 unclosed), String.ofList_toList,
    String.utf8ByteSize_append]
  rfl

theorem Unfinished.rejected {rest : String} {body : List Char} {pieces : List Section}
    {path : String} (unfinished : Unfinished rest.toList pieces path body) :
    Rejected (header ++ rest) (header.utf8ByteSize +
      (String.join (pieces.map Section.text)).utf8ByteSize + (Section.opener path).utf8ByteSize)
      ("unterminated code block for '" ++ path ++ "'") := by
  have accepted : sections (ofSections pieces).text = .ok pieces :=
    sections_eq_ok_iff.2 ⟨rfl, unfinished.recoverable⟩
  have unclosed : Unclosed (String.ofList body) := by
    rw [unclosed_iff, String.toList_ofList]
    exact unfinished.unclosed
  have whole : header ++ rest =
      (ofSections pieces).text ++ Section.opener path ++ String.ofList body := by
    rw [← String.toList_inj]
    simp only [String.toList_append, text_ofSections_toList, String.toList_ofList,
      unfinished.whole, List.append_assoc]
  have size : header.utf8ByteSize + (String.join (pieces.map Section.text)).utf8ByteSize +
      (Section.opener path).utf8ByteSize =
        ((ofSections pieces).text ++ Section.opener path).utf8ByteSize := by
    rw [text_ofSections, String.utf8ByteSize_append, String.utf8ByteSize_append]
  rw [whole, size]
  exact .unclosed accepted unfinished.oneLine unclosed

theorem rejected_of_sections {text : String} {problem : Malformed}
    (failed : sections text = .error problem) :
    Rejected text problem.position problem.reason.message := by
  by_cases headed : ∃ rest, text = header ++ rest
  next =>
    obtain ⟨rest, rfl⟩ := headed
    rw [sections_header] at failed
    rcases eq_of_readFrom_eq_error failed with
      ⟨nonempty, unopened, rfl⟩ | ⟨pieces, path, body, unfinished, rfl⟩
    next =>
      refine .unopened (mt String.toList_eq_nil_iff.2 nonempty) fun opens => ?_
      obtain ⟨path, body, opened⟩ := opens_iff.1 opens
      rw [unopened] at opened
      contradiction
    next => exact unfinished.rejected
  next =>
    have missing : ∀ rest, text ≠ header ++ rest := not_exists.1 headed
    rw [sections_headless missing] at failed
    cases failed
    exact .headless missing

theorem exists_problem_of_rejected {text message : String} {position : Nat}
    (rejected : Rejected text position message) :
    ∃ problem, sections text = .error problem ∧ problem.position = position ∧
      problem.reason.message = message := by
  cases rejected with
  | headless missing => exact ⟨_, sections_headless missing, rfl, rfl⟩
  | @unopened rest nonempty noOpener =>
    have unopened : opener? rest.toList = none := by
      rw [Option.eq_none_iff_forall_ne_some]
      exact fun split opened => noOpener (opens_iff.2 ⟨_, _, opened⟩)
    refine ⟨⟨header.utf8ByteSize, .missingOpener⟩, ?_, rfl, rfl⟩
    rw [sections_header, readFrom_unopened (mt String.toList_eq_nil_iff.1 nonempty) unopened]
    rfl
  | unclosed accepted oneLine unclosed =>
    exact ⟨_, sections_unclosed accepted oneLine unclosed, rfl, rfl⟩

theorem sections_rejects_iff (text : String) :
    (∀ position message,
      (∃ problem, sections text = .error problem ∧ problem.position = position ∧
        problem.reason.message = message) ↔ Rejected text position message) ∧
    ((∃ pieces, sections text = .ok pieces) ↔
      ∀ position message, ¬Rejected text position message) := by
  constructor
  next =>
    intro position message
    constructor
    next =>
      rintro ⟨problem, failed, rfl, rfl⟩
      exact rejected_of_sections failed
    next => exact exists_problem_of_rejected
  next =>
    cases result : sections text with
    | ok pieces =>
      refine iff_of_true ⟨pieces, rfl⟩ fun position message rejected => ?_
      obtain ⟨problem, failed, -⟩ := exists_problem_of_rejected rejected
      rw [result] at failed
      contradiction
    | error problem =>
      exact iff_of_false nofun fun accepted => accepted _ _ (rejected_of_sections result)

end Document

end SourceBook
