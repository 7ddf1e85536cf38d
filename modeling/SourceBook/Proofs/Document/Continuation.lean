import SourceBook.Proofs.Document.Rejection

set_option autoImplicit false

namespace SourceBook

def Malformed.shift (distance : Nat) (problem : Malformed) : Malformed :=
  { problem with position := problem.position + distance }

def Located.shift (distance : Nat) (found : Located) : Located :=
  { found with start := found.start + distance }

def Reading.shift (distance : Nat) (reading : Reading) : Reading where
  found := reading.found.map (Located.shift distance)
  failure := reading.failure.map (Malformed.shift distance)

theorem Located.stop_shift (distance : Nat) (found : Located) :
    (found.shift distance).stop = found.stop + distance := by
  simp only [stop, contentEnd, contentStart, shift]
  omega

theorem Reading.sections_shift (distance : Nat) (reading : Reading) :
    (reading.shift distance).sections = reading.sections.mapError (Malformed.shift distance) := by
  rcases reading with ⟨found, _ | problem⟩
  next =>
    simp only [sections, shift, Option.map_none, Except.mapError, List.map_map]
    rfl
  next => rfl

namespace Document

theorem readFrom_add (position distance : Nat) (text : List Char) :
    readFrom (position + distance) text = (readFrom position text).shift distance := by
  fun_induction readFrom position text with
  | case1 => exact readFrom_nil _
  | case2 position text nonempty unopened => exact readFrom_unopened nonempty unopened
  | case3 position text _ path body opened name unclosed =>
    rw [readFrom_unclosed opened unclosed]
    simp only [Reading.shift, Malformed.shift, List.map_nil, Option.map_some, name,
      Nat.add_right_comm]
  | case4 position text _ path body opened name contents after closed _ found later =>
    rename_i ih
    have next : readFrom (found.shift distance).stop after = later.shift distance := by
      rw [Located.stop_shift]
      exact ih
    rw [readFrom_block opened closed]
    change Reading.mk (found.shift distance :: (readFrom (found.shift distance).stop after).found)
      (readFrom (found.shift distance).stop after).failure = _
    rw [next]
    rfl

theorem sections_append_eq {start rest : String} {pieces : List Section}
    (accepted : sections start = .ok pieces) (resumes : rest = "" ∨ Opens rest) :
    sections (start ++ rest) =
      match sections (header ++ rest) with
      | .ok more => .ok (pieces ++ more)
      | .error problem =>
        .error ⟨problem.position + start.utf8ByteSize - header.utf8ByteSize, problem.reason⟩ := by
  have size : start.utf8ByteSize =
      header.utf8ByteSize + (String.join (pieces.map Section.text)).utf8ByteSize := by
    rw [(sections_eq_ok_iff.1 accepted).1, text_ofSections, String.utf8ByteSize_append]
  rw [sections_append accepted (resumes_toList.2 resumes), size, readFrom_add,
    Reading.sections_shift, ← sections_header]
  cases sections (header ++ rest) with
  | ok more => rfl
  | error problem =>
    have position : problem.position + (header.utf8ByteSize +
        (String.join (pieces.map Section.text)).utf8ByteSize) - header.utf8ByteSize =
          problem.position + (String.join (pieces.map Section.text)).utf8ByteSize := by
      omega
    simp only [position]
    rfl

theorem sections_append_eq_unclosed :
    sections (ofSections [⟨"é.go", "x"⟩]).text = .ok [⟨"é.go", "x"⟩] ∧
      Opens (Section.opener "b.go" ++ "y") ∧
      sections (header ++ (Section.opener "b.go" ++ "y")) = .error ⟨34, .unterminated "b.go"⟩ ∧
      sections ((ofSections [⟨"é.go", "x"⟩]).text ++ (Section.opener "b.go" ++ "y")) =
        .error ⟨57, .unterminated "b.go"⟩ := by
  have accepted : sections (ofSections [⟨"é.go", "x"⟩]).text = .ok [⟨"é.go", "x"⟩] :=
    sections_eq_ok_iff.2 ⟨rfl, by decide⟩
  have oneLine : Section.OneLine "b.go" := by simp [Section.OneLine]
  have opens : Opens (Section.opener "b.go" ++ "y") := ⟨"b.go", "y", oneLine, rfl⟩
  have headed : sections (header ++ (Section.opener "b.go" ++ "y")) =
      .error ⟨34, .unterminated "b.go"⟩ := by
    have empty : sections header = .ok [] := sections_eq_ok_iff.2 ⟨rfl, by decide⟩
    have unclosed : Unclosed "y" := unclosed_iff.2 (by decide)
    rw [← String.append_assoc, sections_unclosed empty oneLine unclosed]
    decide
  refine ⟨accepted, opens, headed, ?_⟩
  rw [sections_append_eq accepted (.inr opens), headed]
  decide

theorem opener?_append {text path body : List Char} (opened : opener? text = some (path, body))
    (more : List Char) : opener? (text ++ more) = some (path, body ++ more) := by
  obtain ⟨oneLine, rfl⟩ := opener?_eq_some_iff.1 opened
  exact opener?_eq_some_iff.2 ⟨oneLine, List.append_assoc _ _ _⟩

theorem Resumes.append {text : List Char} (resumes : Resumes text) (nonempty : text ≠ [])
    (more : List Char) : Resumes (text ++ more) := by
  rcases resumes with rfl | ⟨path, body, opened⟩
  next => contradiction
  next => exact .inr ⟨path, body ++ more, opener?_append opened more⟩

theorem prefix_of_blockEnd? {contents other more after : List Char}
    (seamless : ¬Section.HoldsSeam (String.ofList contents)) (resumes : Resumes after)
    (same : contents ++ Section.closer.toList ++ more = other ++ Section.closer.toList ++ after) :
    contents <+: other := by
  rw [List.append_assoc, List.append_assoc] at same
  obtain ⟨cut, rfl, -⟩ | ⟨inner, rfl, ends⟩ := List.append_eq_append_iff.1 same
  next => exact List.prefix_append contents cut
  next =>
    by_cases nonempty : inner = []
    next => simp [nonempty]
    next =>
      refine absurd ((holdsSeam_iff more).2 ⟨other, inner, ?_, nonempty, ?_⟩) seamless
      next => exact String.toList_ofList
      next =>
        rw [List.append_assoc, ← ends, blockEnd?_eq_some_iff.2 ⟨rfl, resumes⟩]
        exact Option.some_ne_none after

section Prefix

variable {piece other : Section} {after otherAfter more : List Char}
  (recoverable : piece.Recoverable) (otherRecoverable : other.Recoverable)
  (whole : piece.text.toList ++ after ++ more = other.text.toList ++ otherAfter)
  (otherResumes : Resumes otherAfter)

include recoverable otherRecoverable whole otherResumes

theorem eq_of_prefix (resumes : Resumes after) (nonempty : after ≠ []) : other = piece := by
  rw [List.append_assoc] at whole
  obtain ⟨path, body⟩ := body_of_text recoverable.1 otherRecoverable.1 whole
  have closed := splitBlock?_text recoverable.2 (resumes.append nonempty more)
  rw [body, splitBlock?_text otherRecoverable.2 otherResumes, Option.some.injEq,
    Prod.mk.injEq, String.toList_inj] at closed
  cases piece
  cases other
  exact congrArg₂ Section.mk path.symm closed.1

theorem contents_of_prefix (ends : after = []) :
    other.path = piece.path ∧ ∃ cut, other.contents = piece.contents ++ cut := by
  rw [ends, List.append_nil] at whole
  obtain ⟨path, body⟩ := body_of_text recoverable.1 otherRecoverable.1 whole
  have seamless : ¬Section.HoldsSeam (String.ofList piece.contents.toList) := by
    rw [String.ofList_toList]
    exact recoverable.2
  obtain ⟨cut, longer⟩ := prefix_of_blockEnd? seamless otherResumes body
  refine ⟨path.symm, String.ofList cut, ?_⟩
  rw [← String.toList_inj, String.toList_append, String.toList_ofList, longer]

end Prefix

theorem resumes_pieces {pieces : List Section}
    (recoverable : ∀ piece ∈ pieces, piece.Recoverable) :
    Resumes (pieces.flatMap fun piece => piece.text.toList) := by
  have resumes := resumes_text (fun piece member => (recoverable piece member).1) (.inl rfl)
  rwa [List.append_nil] at resumes

theorem pieces_of_prefix {found pieces : List Section}
    (foundRecoverable : ∀ piece ∈ found, piece.Recoverable)
    (recoverable : ∀ piece ∈ pieces, piece.Recoverable) {more : List Char}
    (whole : (found.flatMap fun piece => piece.text.toList) ++ more =
      pieces.flatMap fun piece => piece.text.toList) :
    found = [] ∨ ∃ kept path contents cut later, found = kept ++ [⟨path, contents⟩] ∧
      pieces = kept ++ ⟨path, contents ++ cut⟩ :: later := by
  induction found generalizing pieces with
  | nil => exact .inl rfl
  | cons piece others ih =>
    obtain ⟨here, othersRecoverable⟩ := List.forall_mem_cons.1 foundRecoverable
    cases pieces with
    | nil => simp [Section.toList_text, Section.toList_closer] at whole
    | cons first rest =>
      obtain ⟨firstRecoverable, restRecoverable⟩ := List.forall_mem_cons.1 recoverable
      have resumes := resumes_pieces restRecoverable
      rw [List.flatMap_cons, List.flatMap_cons] at whole
      cases others with
      | nil =>
        obtain ⟨path, cut, contents⟩ := contents_of_prefix here firstRecoverable whole resumes rfl
        refine .inr ⟨[], piece.path, piece.contents, cut, rest, rfl, ?_⟩
        rw [← path, ← contents]
        rfl
      | cons second others =>
        have nonempty : ((second :: others).flatMap fun piece => piece.text.toList) ≠ [] := by
          simp [Section.toList_text, Section.toList_closer]
        obtain rfl := eq_of_prefix here firstRecoverable whole resumes
          (resumes_pieces othersRecoverable) nonempty
        rw [List.append_assoc, List.append_cancel_left_eq] at whole
        rcases ih othersRecoverable restRecoverable whole with none | last
        next => contradiction
        next =>
          obtain ⟨kept, path, contents, cut, later, foundSplit, split⟩ := last
          refine .inr ⟨first :: kept, path, contents, cut, later, ?_, ?_⟩
          next => rw [foundSplit, List.cons_append]
          next => rw [split, List.cons_append]

theorem sections_cut_short {start rest : String} {pieces : List Section}
    (accepted : sections (start ++ rest) = .ok pieces) :
    (∃ problem, sections start = .error problem) ∨ sections start = .ok [] ∨
      ∃ kept path contents cut later, sections start = .ok (kept ++ [⟨path, contents⟩]) ∧
        pieces = kept ++ ⟨path, contents ++ cut⟩ :: later := by
  cases read : sections start with
  | error problem => exact .inl ⟨problem, rfl⟩
  | ok found =>
    obtain ⟨whole, recoverable⟩ := sections_eq_ok_iff.1 accepted
    obtain ⟨rfl, foundRecoverable⟩ := sections_eq_ok_iff.1 read
    rw [← String.toList_inj, String.toList_append, text_ofSections_toList, text_ofSections_toList,
      List.append_assoc, List.append_cancel_left_eq] at whole
    rcases pieces_of_prefix foundRecoverable recoverable whole with none | last
    next => exact .inr (.inl (congrArg _ none))
    next =>
      obtain ⟨kept, path, contents, cut, later, rfl, split⟩ := last
      exact .inr (.inr ⟨kept, path, contents, cut, later, rfl, split⟩)

-- The cut falls behind a fence inside the last contents, which then closes the block.
theorem sections_cut_short_fenced :
    sections ((ofSections [⟨"a.go", "x"⟩, ⟨"b.go", "y"⟩]).text ++ "z\n```\n\n") =
        .ok [⟨"a.go", "x"⟩, ⟨"b.go", "y\n```\n\nz"⟩] ∧
      ((∃ problem, sections (ofSections [⟨"a.go", "x"⟩, ⟨"b.go", "y"⟩]).text = .error problem) ∨
        sections (ofSections [⟨"a.go", "x"⟩, ⟨"b.go", "y"⟩]).text = .ok [] ∨
        ∃ kept path contents cut later,
          sections (ofSections [⟨"a.go", "x"⟩, ⟨"b.go", "y"⟩]).text =
              .ok (kept ++ [⟨path, contents⟩]) ∧
            [⟨"a.go", "x"⟩, ⟨"b.go", "y\n```\n\nz"⟩] = kept ++ ⟨path, contents ++ cut⟩ :: later) := by
  have accepted : sections ((ofSections [⟨"a.go", "x"⟩, ⟨"b.go", "y"⟩]).text ++ "z\n```\n\n") =
      .ok [⟨"a.go", "x"⟩, ⟨"b.go", "y\n```\n\nz"⟩] :=
    sections_eq_ok_iff.2 ⟨by decide, by decide⟩
  exact ⟨accepted, sections_cut_short accepted⟩

end Document

end SourceBook
