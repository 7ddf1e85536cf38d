import SourceBook.Proofs.Document.Search

set_option autoImplicit false

namespace SourceBook

namespace Document

theorem size_opener (path : String) :
    (Section.opener path).utf8ByteSize = path.utf8ByteSize + 11 := by
  rw [Section.opener, String.utf8ByteSize_append, String.utf8ByteSize_append]
  change 3 + path.utf8ByteSize + 8 = _
  omega

theorem size_closer : Section.closer.utf8ByteSize = 6 := rfl

theorem exists_contents_of_isLeast {body : String} {place : Nat}
    (least : IsLeast {place | EndsAt body place} place) :
    ∃ contents after : String, contents.utf8ByteSize = place ∧
      body = contents ++ Section.closer ++ after ∧
      splitBlock? [] body.toList = some (contents.toList, after.toList) := by
  have length := contentLength?_eq_some_iff.2 least
  rw [contentLength?, Option.map_eq_some_iff] at length
  obtain ⟨⟨contents, after⟩, closed, size⟩ := length
  obtain ⟨whole, -, -⟩ := splitBlock?_eq_some_iff_not_holdsSeam.1 closed
  refine ⟨String.ofList contents, String.ofList after, size, ?_, ?_⟩
  next => simp [← String.toList_inj, whole]
  next => rw [closed, String.toList_ofList, String.toList_ofList]

theorem cuttable_at_fence {body rest : String} {searchFrom ahead : Nat}
    (cut : Utf8.behind? body searchFrom = some rest)
    (found : Utf8.find? Section.closer rest = some ahead) :
    Utf8.Cuttable body (ahead + searchFrom) ∧
      Utf8.Cuttable body (ahead + searchFrom + Section.closer.utf8ByteSize) := by
  obtain ⟨front, rfl, rfl⟩ := Utf8.behind?_eq_some_iff.1 cut
  have spec := Utf8.find?_spec closer_ne_empty rest
  rw [found] at spec
  obtain ⟨⟨inner, after, rfl, rfl⟩, -⟩ := spec
  rw [Utf8.cuttable_iff, Utf8.cuttable_iff]
  constructor
  next =>
    refine ⟨front ++ inner, Section.closer ++ after, ?_, ?_⟩
    next => simp only [String.append_assoc]
    next => rw [String.utf8ByteSize_append, Nat.add_comm]
  next =>
    refine ⟨front ++ inner ++ Section.closer, after, ?_, ?_⟩
    next => simp only [String.append_assoc]
    next => simp only [String.utf8ByteSize_append, Nat.add_comm]

structure OpenBlock.Placed (document : String) (block : OpenBlock) (searchFrom : Nat) : Prop where
  atStart : Utf8.Cuttable document block.start
  atContents : Utf8.Cuttable document block.contentStart
  body : Utf8.behind? document block.contentStart = some block.body
  atSearch : Utf8.Cuttable block.body searchFrom
  atFence : ∀ rest ahead, Utf8.behind? block.body searchFrom = some rest →
    Utf8.find? Section.closer rest = some ahead →
      Utf8.Cuttable block.body (ahead + searchFrom) ∧
        Utf8.Cuttable block.body (ahead + searchFrom + Section.closer.utf8ByteSize)

namespace Scan

def Placed (document : String) : Scan → Prop
  | .between _ position => Utf8.Cuttable document position
  | .inside _ block searchFrom => block.Placed document searchFrom
  | .finished (.ok _) => True
  | .finished (.error problem) => Utf8.Cuttable document problem.position

inductive Moves (document : String) : Scan → Scan → Prop where
  | opened {found : List Section} {position : Nat} {block : OpenBlock}
      (start : block.start = position) (further : position < block.contentStart) :
    Moves document (.between found position) (.inside found block 0)
  | rejected {found : List Section} {block : OpenBlock} {searchFrom next : Nat}
      (further : searchFrom < next) (within : next ≤ block.body.utf8ByteSize) :
    Moves document (.inside found block searchFrom) (.inside found block next)
  | closed {found : List Section} {block : OpenBlock} {piece : Section} {searchFrom next : Nat}
      (further : block.start + 17 ≤ next) (beyond : block.contentStart + searchFrom < next)
      (within : next ≤ document.utf8ByteSize) :
    Moves document (.inside found block searchFrom) (.between (found ++ [piece]) next)
  | finished {state : Scan} {result : Except Malformed (List Section)} :
    Moves document state (.finished result)

inductive Holds (document : String) : Scan → Prop where
  | between {found : List Section} {before rest : String} (whole : document = before ++ rest)
      (reads : sections document =
        (readFrom before.utf8ByteSize rest.toList).sections.map (found ++ ·)) :
    Holds document (.between found before.utf8ByteSize)
  | inside {found : List Section} {before path body : String} {searchFrom : Nat}
      (whole : document = before ++ Section.opener path ++ body)
      (oneLine : Section.OneLine path)
      (boundary : Utf8.isBoundary (Utf8.encode body) searchFrom)
      (passed : ∀ place, place < searchFrom → ¬EndsAt body place)
      (reads : sections document = (readFrom before.utf8ByteSize
        (Section.opener path ++ body).toList).sections.map (found ++ ·)) :
    Holds document (.inside found ⟨before.utf8ByteSize, path,
      (before ++ Section.opener path).utf8ByteSize, body⟩ searchFrom)
  | finished : Holds document (.finished (sections document))

variable {document : String} {state : Scan}

theorem start_holds (document : String) : (start document).Holds document := by
  rw [start]
  cases headed : dropStart? header.toList document.toList with
  | none =>
    have failed : sections document = .error ⟨0, .missingHeader⟩ := by
      rw [sections, read, headed]
      rfl
    dsimp only
    rw [← failed]
    exact .finished
  | some rest =>
    have whole : document = header ++ String.ofList rest := by
      rw [← String.toList_inj, String.toList_append, String.toList_ofList]
      exact dropStart?_eq_some_iff.1 headed
    refine .between whole ?_
    rw [whole, sections_header]
    cases (readFrom _ _).sections <;> rfl

theorem exists_open? {found : List Section} {before rest : String} (nonempty : rest ≠ "")
    (whole : document = before ++ rest)
    (reads : sections document =
      (readFrom before.utf8ByteSize rest.toList).sections.map (found ++ ·)) :
    ∃ next, open? document found before.utf8ByteSize = some next ∧ next.Holds document ∧
      Moves document (.between found before.utf8ByteSize) next := by
  have behind : Utf8.behind? document before.utf8ByteSize = some rest :=
    Utf8.behind?_eq_some_iff.2 ⟨before, whole, rfl⟩
  rw [open?, behind]
  dsimp only
  cases opened : opener? rest.toList with
  | none =>
    have failed : sections document = .error ⟨before.utf8ByteSize, .missingOpener⟩ := by
      rw [reads, readFrom_unopened (mt String.toList_eq_nil_iff.1 nonempty) opened]
      rfl
    dsimp only
    rw [← failed]
    exact ⟨_, rfl, .finished, .finished⟩
  | some split =>
    rcases split with ⟨path, body⟩
    obtain ⟨oneLine, chars⟩ := eq_opener_append opened
    have split : rest = Section.opener (String.ofList path) ++ String.ofList body := by
      rw [← String.toList_inj, String.toList_append, String.toList_ofList, chars]
    have wholeBody : document =
        before ++ Section.opener (String.ofList path) ++ String.ofList body := by
      rw [whole, split, String.append_assoc]
    have content : Utf8.behind? document
        (before.utf8ByteSize + (Section.opener (String.ofList path)).utf8ByteSize) =
          some (String.ofList body) :=
      Utf8.behind?_eq_some_iff.2 ⟨_, wholeBody, String.utf8ByteSize_append⟩
    dsimp only
    rw [content, ← String.utf8ByteSize_append]
    refine ⟨_, rfl, .inside wholeBody oneLine (Utf8.isBoundary_zero _) nofun ?_, .opened rfl ?_⟩
    next => rw [reads, split]
    next =>
      change before.utf8ByteSize < (before ++ Section.opener (String.ofList path)).utf8ByteSize
      rw [String.utf8ByteSize_append, size_opener]
      omega

theorem opener?_block {path : String} (body : String) (oneLine : Section.OneLine path) :
    opener? (Section.opener path ++ body).toList = some (path.toList, body.toList) := by
  rw [String.toList_append, opener?_opener oneLine]

theorem sections_unterminated {found : List Section} {position : Nat} {path body : String}
    (oneLine : Section.OneLine path) (never : ∀ place, ¬EndsAt body place)
    (reads : sections document = (readFrom position
      (Section.opener path ++ body).toList).sections.map (found ++ ·)) :
    sections document =
      .error ⟨position + (Section.opener path).utf8ByteSize, .unterminated path⟩ := by
  rw [reads, readFrom_unclosed (opener?_block body oneLine)
    (splitBlock?_eq_none_iff_endsAt.2 never), String.ofList_toList]
  rfl

theorem sections_closed {found : List Section} {position : Nat} {path body contents after : String}
    (oneLine : Section.OneLine path)
    (closed : splitBlock? [] body.toList = some (contents.toList, after.toList))
    (reads : sections document = (readFrom position
      (Section.opener path ++ body).toList).sections.map (found ++ ·)) :
    sections document = (readFrom (position + (Section.text ⟨path, contents⟩).utf8ByteSize)
      after.toList).sections.map (found ++ [⟨path, contents⟩] ++ ·) := by
  rw [reads, readFrom_block (opener?_block body oneLine) closed, sections_cons, stop_eq,
    String.ofList_toList, String.ofList_toList]
  cases (readFrom _ after.toList).sections with
  | error problem => rfl
  | ok pieces => simp only [Except.map, List.append_assoc, List.singleton_append]

theorem exists_holds_closed {found : List Section} {before path body : String} {place : Nat}
    (whole : document = before ++ Section.opener path ++ body) (oneLine : Section.OneLine path)
    (least : IsLeast {place | EndsAt body place} place)
    (reads : sections document = (readFrom before.utf8ByteSize
      (Section.opener path ++ body).toList).sections.map (found ++ ·)) :
    ∃ contents, Utf8.before? body place = some contents ∧
      Holds document (.between (found ++ [⟨path, contents⟩])
        ((before ++ Section.opener path).utf8ByteSize + place +
          Section.closer.utf8ByteSize)) := by
  obtain ⟨contents, after, rfl, split, closed⟩ := exists_contents_of_isLeast least
  have cut : Utf8.before? body contents.utf8ByteSize = some contents :=
    Utf8.before?_eq_some_iff.2 ⟨Section.closer ++ after, by rw [split, String.append_assoc], rfl⟩
  have wholeAfter : document =
      before ++ Section.opener path ++ contents ++ Section.closer ++ after := by
    rw [whole, split]
    simp only [String.append_assoc]
  have size : before.utf8ByteSize + (Section.text ⟨path, contents⟩).utf8ByteSize =
      (before ++ Section.opener path ++ contents ++ Section.closer).utf8ByteSize := by
    simp only [Section.text, String.utf8ByteSize_append, Nat.add_assoc]
  have readsAfter := sections_closed oneLine closed reads
  rw [size] at readsAfter
  rw [← String.utf8ByteSize_append, ← String.utf8ByteSize_append]
  exact ⟨contents, cut, .between wholeAfter readsAfter⟩

theorem Holds.position_le {found : List Section} {position : Nat}
    (holds : Holds document (.between found position)) : position ≤ document.utf8ByteSize := by
  cases holds with
  | between whole =>
    rw [whole, String.utf8ByteSize_append]
    exact Nat.le_add_right _ _

theorem exists_close? {found : List Section} {before path body : String} {searchFrom : Nat}
    (whole : document = before ++ Section.opener path ++ body) (oneLine : Section.OneLine path)
    (boundary : Utf8.isBoundary (Utf8.encode body) searchFrom)
    (passed : ∀ place, place < searchFrom → ¬EndsAt body place)
    (reads : sections document = (readFrom before.utf8ByteSize
      (Section.opener path ++ body).toList).sections.map (found ++ ·)) :
    let block : OpenBlock :=
      ⟨before.utf8ByteSize, path, (before ++ Section.opener path).utf8ByteSize, body⟩
    ∃ next, close? found block searchFrom = some next ∧ next.Holds document ∧
      Moves document (.inside found block searchFrom) next := by
  obtain ⟨attempt, tried, tells⟩ := exists_tells boundary
  dsimp only
  rw [close?, tried]
  cases tells with
  | unclosed never =>
    have failed : sections document =
        .error ⟨(before ++ Section.opener path).utf8ByteSize, .unterminated path⟩ := by
      rw [String.utf8ByteSize_append]
      refine sections_unterminated oneLine (fun place ends => ?_) reads
      rcases Nat.lt_or_ge place searchFrom with less | onward
      next => exact passed place less ends
      next => exact never place onward ends
    dsimp only
    rw [← failed]
    exact ⟨_, rfl, .finished, .finished⟩
  | @rejected next further nextBoundary passedBy =>
    have passedNext : ∀ place, place < next → ¬EndsAt body place := by
      intro place less
      rcases Nat.lt_or_ge place searchFrom with lesser | onward
      next => exact passed place lesser
      next => exact passedBy place onward less
    have within : next ≤ body.utf8ByteSize :=
      Utf8.length_encode body ▸ Utf8.le_of_isBoundary nextBoundary
    exact ⟨_, rfl, .inside whole oneLine nextBoundary passedNext reads, .rejected further within⟩
  | @closed place least =>
    have leastOfAll : IsLeast {place | EndsAt body place} place := by
      refine ⟨least.1.2, fun other ends => ?_⟩
      exact least.2 ⟨Nat.le_of_not_lt fun less => passed other less ends, ends⟩
    obtain ⟨contents, cut, holds⟩ := exists_holds_closed whole oneLine leastOfAll reads
    have ahead : searchFrom ≤ place := least.1.1
    dsimp only
    rw [cut]
    refine ⟨_, rfl, holds, .closed ?_ ?_ holds.position_le⟩
    next =>
      -- The opener takes eleven bytes besides the path, the closing fence six.
      simp only [String.utf8ByteSize_append, size_opener, size_closer]
      omega
    next =>
      simp only [size_closer]
      omega

theorem exists_step (holds : state.Holds document) :
    ∃ next, step document state = some next ∧ next.Holds document ∧
      Moves document state next := by
  cases holds with
  | @between found before rest whole reads =>
    rw [step]
    split
    next inside =>
      refine exists_open? ?_ whole reads
      rintro rfl
      simp [whole] at inside
    next atEnd =>
      have empty : rest = "" := by
        rw [whole, String.utf8ByteSize_append] at atEnd
        exact String.utf8ByteSize_eq_zero_iff.1 (by omega)
      have accepted : sections document = .ok found := by
        rw [reads, empty, String.toList_empty, readFrom_nil]
        simp [Reading.sections, Except.map]
      rw [← accepted]
      exact ⟨_, rfl, .finished, .finished⟩
  | inside whole oneLine boundary passed reads =>
    exact exists_close? whole oneLine boundary passed reads
  | finished => exact ⟨_, rfl, .finished, .finished⟩

theorem cuttable_of_rejected {position : Nat} {message : String}
    (rejected : Rejected document position message) : Utf8.Cuttable document position := by
  rw [Utf8.cuttable_iff]
  cases rejected with
  | headless => exact ⟨"", document, String.empty_append.symm, rfl⟩
  | @unopened rest => exact ⟨header, rest, rfl, rfl⟩
  | @unclosed start path rest => exact ⟨start ++ Section.opener path, rest, rfl, rfl⟩

theorem Holds.placed (holds : state.Holds document) : state.Placed document := by
  cases holds with
  | @between found before rest whole => exact Utf8.cuttable_iff.2 ⟨before, rest, whole, rfl⟩
  | @inside found before path body searchFrom whole _ boundary =>
    have behind : Utf8.behind? document (before ++ Section.opener path).utf8ByteSize = some body :=
      Utf8.behind?_eq_some_iff.2 ⟨_, whole, rfl⟩
    constructor
    case atStart =>
      exact Utf8.cuttable_iff.2 ⟨before, _, by rw [whole, String.append_assoc], rfl⟩
    case atContents => exact Utf8.cuttable_iff.2 ⟨_, body, whole, rfl⟩
    case body => exact behind
    case atSearch => exact Utf8.cuttable_iff.2 (Utf8.isBoundary_iff.1 boundary)
    case atFence => exact fun rest ahead => cuttable_at_fence
  | finished =>
    cases result : sections document with
    | ok pieces => trivial
    | error problem => exact cuttable_of_rejected (rejected_of_sections result)

def place : Scan → Nat
  | .between _ position => position
  | .inside _ block searchFrom => block.contentStart + searchFrom
  | .finished _ => 0

theorem Moves.place_lt {next : Scan} (moves : Moves document state next) :
    (∃ result, next = .finished result) ∨ state.place < next.place := by
  cases moves with
  | opened start further => exact .inr (by simpa [place] using further)
  | rejected further => exact .inr (Nat.add_lt_add_left further _)
  | closed _ beyond => exact .inr beyond
  | finished => exact .inl ⟨_, rfl⟩

theorem Holds.place_le (holds : state.Holds document) : state.place ≤ document.utf8ByteSize := by
  cases holds with
  | between whole reads => exact (Holds.between whole reads).position_le
  | inside whole _ boundary =>
    have within := Utf8.le_of_isBoundary boundary
    rw [Utf8.length_encode] at within
    simp only [place, whole, String.utf8ByteSize_append]
    omega
  | finished => exact Nat.zero_le _

theorem exists_pass (document : String) (count : Nat) :
    ∃ state, after? document count = some state ∧ state.Holds document ∧
      ((∃ result, state = .finished result) ∨ count < state.place) := by
  induction count with
  | zero =>
    refine ⟨start document, rfl, start_holds document, ?_⟩
    rw [start]
    cases dropStart? header.toList document.toList with
    | none => exact .inl ⟨_, rfl⟩
    | some rest =>
      have headed : 0 < header.utf8ByteSize := by decide
      exact .inr headed
  | succ count ih =>
    obtain ⟨state, reached, holds, far⟩ := ih
    obtain ⟨next, stepped, nextHolds, moves⟩ := exists_step holds
    refine ⟨next, by rw [after?, reached, Option.bind_some, stepped], nextHolds, ?_⟩
    rcases far with ⟨result, rfl⟩ | far
    next =>
      cases stepped
      exact .inl ⟨result, rfl⟩
    next =>
      rcases moves.place_lt with finished | further
      next => exact .inl finished
      next => exact .inr (by omega)

theorem passes_sound (document : String) :
    (∀ count, ∃ state, after? document count = some state ∧ state.Placed document) ∧
    (∀ count state next, after? document count = some state →
      step document state = some next → Moves document state next) ∧
    after? document document.utf8ByteSize = some (.finished (sections document)) ∧
    ∀ problem, sections document = .error problem →
      Utf8.Cuttable document problem.position := by
  refine ⟨fun count => ?_, ?_, ?_, fun problem failed => ?_⟩
  next =>
    obtain ⟨state, reached, holds, -⟩ := exists_pass document count
    exact ⟨state, reached, holds.placed⟩
  next =>
    intro count state next reached stepped
    obtain ⟨same, sameReached, holds, -⟩ := exists_pass document count
    rw [reached, Option.some.injEq] at sameReached
    subst sameReached
    obtain ⟨other, otherStepped, -, moves⟩ := exists_step holds
    rw [stepped, Option.some.injEq] at otherStepped
    rwa [otherStepped]
  next =>
    obtain ⟨state, reached, holds, ⟨result, rfl⟩ | far⟩ :=
      exists_pass document document.utf8ByteSize
    next =>
      cases holds
      exact reached
    next =>
      have := holds.place_le
      omega
  next => exact cuttable_of_rejected (rejected_of_sections failed)

end Scan

end Document

end SourceBook
