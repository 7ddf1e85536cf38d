import Mathlib.Data.List.Forall2
import SourceBook.Proofs.Document.RoundTrip

set_option autoImplicit false

namespace SourceBook

namespace Section

def EndsInSeam (text : List Char) : Prop :=
  ∃ front path, text = front ++ seam path ∧ '\n' ∉ path

/-- How many seams stand at the end of a text, each right behind the one before it. -/
inductive TrailingSeams : List Char → Nat → Prop where
  | none {text : List Char} (free : ¬EndsInSeam text) : TrailingSeams text 0
  | more {front path : List Char} {count : Nat} (oneLine : '\n' ∉ path)
      (before : TrailingSeams front count) : TrailingSeams (front ++ seam path) (count + 1)

def Dangles (contents : List Char) : Prop :=
  ∃ count, TrailingSeams contents (2 * count + 1)

theorem getLast?_of_endsInSeam {text : List Char} (ends : EndsInSeam text) :
    text.getLast? = some 'o' := by
  obtain ⟨front, path, rfl, -⟩ := ends
  simp [seam_eq]

theorem append_line_inj {first second firstLine secondLine : List Char}
    (firstOneLine : '\n' ∉ firstLine) (secondOneLine : '\n' ∉ secondLine)
    (same : first ++ '\n' :: firstLine = second ++ '\n' :: secondLine) :
    first = second ∧ firstLine = secondLine := by
  obtain ⟨between, rfl, later⟩ | ⟨between, rfl, later⟩ := List.append_eq_append_iff.1 same
  next =>
    cases between with
    | nil => exact ⟨(List.append_nil _).symm, (List.cons.inj later).2⟩
    | cons c between => simp [(List.cons.inj later).2] at firstOneLine
  next =>
    cases between with
    | nil => exact ⟨List.append_nil _, (List.cons.inj later).2.symm⟩
    | cons c between => simp [(List.cons.inj later).2] at secondOneLine

theorem append_seam_inj {first second firstPath secondPath : List Char}
    (firstOneLine : '\n' ∉ firstPath) (secondOneLine : '\n' ∉ secondPath)
    (same : first ++ seam firstPath = second ++ seam secondPath) : first = second := by
  have split (front path : List Char) : front ++ seam path =
      (front ++ ['\n', '`', '`', '`', '\n'] ++ '\n' :: (headingMark.toList ++ path)) ++
        ['\n', '\n', '`', '`', '`', 'g', 'o'] := by
    simp [seam_eq, toList_closer]
  have heading {path : List Char} (oneLine : '\n' ∉ path) : '\n' ∉ headingMark.toList ++ path := by
    simp [toList_headingMark, oneLine]
  rw [split, split] at same
  have lines := List.append_cancel_right same
  exact List.append_cancel_right
    (append_line_inj (heading firstOneLine) (heading secondOneLine) lines).1

theorem count_seam {path : List Char} (oneLine : '\n' ∉ path) : (seam path).count '\n' = 5 := by
  simp [seam_eq, toList_closer, toList_headingMark, List.count_eq_zero_of_not_mem oneLine]

theorem TrailingSeams.unique {text : List Char} {first second : Nat}
    (firstCount : TrailingSeams text first) (secondCount : TrailingSeams text second) :
    first = second := by
  induction firstCount generalizing second with
  | none free =>
    cases secondCount with
    | none => rfl
    | more oneLine => exact absurd ⟨_, _, rfl, oneLine⟩ free
  | @more front path count oneLine before ih =>
    generalize whole : front ++ seam path = text at secondCount
    cases secondCount with
    | none free => exact absurd ⟨_, _, whole.symm, oneLine⟩ free
    | more otherOneLine otherBefore =>
      obtain rfl := append_seam_inj oneLine otherOneLine whole
      rw [ih otherBefore]

theorem exists_trailingSeams (text : List Char) : ∃ count, TrailingSeams text count := by
  induction size : text.length using Nat.strongRecOn generalizing text with
  | ind _ ih =>
    by_cases ends : EndsInSeam text
    next =>
      obtain ⟨front, path, rfl, oneLine⟩ := ends
      have shorter : front.length < (front ++ seam path).length := by
        simp [seam_eq, toList_closer]
      obtain ⟨count, before⟩ := ih _ (size ▸ shorter) front rfl
      exact ⟨count + 1, .more oneLine before⟩
    next => exact ⟨0, .none ends⟩

-- A seam that ends behind an opener starts behind it too, or with its last line break.
theorem eq_seam_of_beyond {before path rest front last : List Char} (oneLine : '\n' ∉ path)
    (lastOneLine : '\n' ∉ last) (free : ¬EndsInSeam rest)
    (ends : before ++ seam path ++ '\n' :: rest = front ++ seam last) :
    front = before ++ seam path := by
  obtain ⟨more, rfl, later⟩ | ⟨part, whole, later⟩ := List.append_eq_append_iff.1 ends
  next =>
    cases more with
    | nil => exact List.append_nil _
    | cons c more => exact absurd ⟨more, last, (List.cons.inj later).2, lastOneLine⟩ free
  next =>
    have breaks := congrArg (List.count '\n') later
    rw [count_seam lastOneLine, List.count_append, List.count_cons_self] at breaks
    obtain ⟨more, rfl, seamParts⟩ | ⟨more, rfl, rfl⟩ := List.append_eq_append_iff.1 whole
    next =>
      by_cases nonempty : part = []
      next => simp [seamParts, nonempty]
      next =>
        cases more with
        | nil =>
          rw [List.nil_append] at seamParts
          rw [← seamParts, count_seam oneLine] at breaks
          omega
        | cons c more =>
          have suffix : part <:+ (seam path).tail := seamParts ▸ List.suffix_append more part
          have starts : seam last = closer.toList ++ (headingMark.toList ++ (last ++
              ("\n\n" ++ fence ++ languageTag).toList)) := by
            simp only [seam, List.append_assoc]
          exact absurd (later.symm.trans starts)
            (Document.ne_closer_of_suffix oneLine nonempty suffix)
    next =>
      rw [List.count_append, count_seam oneLine] at breaks
      omega

theorem TrailingSeams.beyond {before path rest : List Char} {count : Nat}
    (settled : ¬EndsInSeam before) (oneLine : '\n' ∉ path) (trailing : TrailingSeams rest count) :
    ∃ pairs, TrailingSeams (before ++ seam path ++ '\n' :: rest) (count + 2 * pairs) := by
  induction trailing with
  | @none rest free =>
    by_cases ends : EndsInSeam (before ++ seam path ++ '\n' :: rest)
    next =>
      -- The line break behind the seam starts another one.
      obtain ⟨front, last, whole, lastOneLine⟩ := ends
      obtain rfl := eq_seam_of_beyond oneLine lastOneLine free whole
      rw [whole]
      exact ⟨1, .more lastOneLine (.more oneLine (.none settled))⟩
    next => exact ⟨0, .none ends⟩
  | @more front last count lastOneLine _ ih =>
    obtain ⟨pairs, before⟩ := ih
    refine ⟨pairs, ?_⟩
    have longer := before.more lastOneLine
    rw [List.append_assoc, List.cons_append] at longer
    rwa [Nat.add_right_comm]

theorem dangles_beyond_iff {before path rest : List Char} (settled : ¬EndsInSeam before)
    (oneLine : '\n' ∉ path) : Dangles (before ++ seam path ++ '\n' :: rest) ↔ Dangles rest := by
  obtain ⟨count, trailing⟩ := exists_trailingSeams rest
  obtain ⟨pairs, longer⟩ := trailing.beyond settled oneLine
  constructor
  next =>
    rintro ⟨half, odd⟩
    have same := longer.unique odd
    have parity : count = 2 * (half - pairs) + 1 := by omega
    exact ⟨half - pairs, parity ▸ trailing⟩
  next =>
    rintro ⟨half, odd⟩
    have same := trailing.unique odd
    have parity : count + 2 * pairs = 2 * (half + pairs) + 1 := by omega
    exact ⟨half + pairs, parity ▸ longer⟩

theorem not_dangles_of_free {text : List Char} (free : ¬EndsInSeam text) : ¬Dangles text := by
  rintro ⟨count, odd⟩
  have := odd.unique (.none free)
  omega

theorem holdsSeam_of_endsInSeam {contents : String} (ends : EndsInSeam contents.toList) :
    HoldsSeam contents := by
  obtain ⟨front, path, whole, oneLine⟩ := ends
  exact ⟨front, path, [], by rw [List.append_nil, whole], oneLine, .inl rfl⟩

theorem exists_first_seam {contents : List Char} (holds : HoldsSeam (String.ofList contents)) :
    ∃ before path after, contents = before ++ seam path ++ after ∧ '\n' ∉ path ∧
      (after = [] ∨ after.head? = some '\n') ∧ ¬HoldsSeam (String.ofList before) := by
  obtain ⟨before, path, after, whole, oneLine, ends⟩ := holds
  rw [String.toList_ofList] at whole
  induction size : before.length using Nat.strongRecOn generalizing before path after with
  | ind _ ih =>
    by_cases earlier : HoldsSeam (String.ofList before)
    next =>
      obtain ⟨front, first, between, split, firstOneLine, firstEnds⟩ := earlier
      rw [String.toList_ofList] at split
      have shorter : front.length < before.length := by
        simp [split, seam_eq, toList_closer]
      refine ih _ (size ▸ shorter) front first (between ++ (seam path ++ after)) ?_ firstOneLine
        ?_ rfl
      next => simp only [whole, split, List.append_assoc]
      next =>
        cases between with
        | nil => exact .inr (by simp [seam_eq, toList_closer])
        | cons c between => simpa using firstEnds
    next => exact ⟨before, path, after, whole, oneLine, ends, earlier⟩

theorem seam_line (path rest : List Char) :
    seam path ++ '\n' :: rest = closer.toList ++ (opener (String.ofList path)).toList ++ rest := by
  simp [seam_eq, toList_opener, toList_blockStart]

structure Splits (piece : Section) (group : List Section) : Prop where
  nonempty : group ≠ []
  recoverable : ∀ part ∈ group, part.Recoverable
  text : String.join (group.map Section.text) = piece.text

theorem text_beyond {piece : Section} {before path rest : List Char}
    (whole : piece.contents.toList = before ++ seam path ++ '\n' :: rest) :
    piece.text =
      text ⟨piece.path, String.ofList before⟩ ++ text ⟨String.ofList path, String.ofList rest⟩ := by
  rw [List.append_assoc, seam_line] at whole
  simp [← String.toList_inj, toList_text, whole]

theorem exists_splits (piece : Section) (oneLine : OneLine piece.path)
    (settled : ¬Dangles piece.contents.toList) : ∃ group, piece.Splits group := by
  induction size : piece.contents.toList.length using Nat.strongRecOn generalizing piece with
  | ind _ ih =>
    by_cases holds : HoldsSeam piece.contents
    next =>
      rw [← String.ofList_toList (s := piece.contents)] at holds
      obtain ⟨before, path, after, whole, pathOneLine, ends, first⟩ := exists_first_seam holds
      have free : ¬EndsInSeam before := by
        rw [← String.toList_ofList (l := before)]
        exact mt holdsSeam_of_endsInSeam first
      rw [whole] at settled
      rcases ends with rfl | broken
      next => exact absurd ⟨0, by simpa using TrailingSeams.more pathOneLine (.none free)⟩ settled
      next =>
        obtain ⟨rest, rfl⟩ := List.head?_eq_some_iff.1 broken
        have shorter : rest.length < piece.contents.toList.length := by
          simp [whole]
          omega
        obtain ⟨group, splits⟩ := ih rest.length (size ▸ shorter)
          ⟨String.ofList path, String.ofList rest⟩
          (by rwa [OneLine, String.toList_ofList])
          (by rwa [String.toList_ofList, ← dangles_beyond_iff free pathOneLine])
          (by rw [String.toList_ofList])
        refine ⟨⟨piece.path, String.ofList before⟩ :: group, List.cons_ne_nil _ _, ?_, ?_⟩
        next => exact List.forall_mem_cons.2 ⟨⟨oneLine, first⟩, splits.recoverable⟩
        next => rw [List.map_cons, String.join_cons, splits.text, text_beyond whole]
    next => exact ⟨[piece], by simp, by simp [Recoverable, oneLine, holds], by simp⟩

theorem exists_text_join (first : Section) (others : List Section) :
    ∃ contents, String.join ((first :: others).map Section.text) = text ⟨first.path, contents⟩ := by
  induction others generalizing first with
  | nil => exact ⟨first.contents, by simp⟩
  | cons second others ih =>
    obtain ⟨contents, whole⟩ := ih second
    refine ⟨first.contents ++ closer ++ opener second.path ++ contents, ?_⟩
    rw [List.map_cons, String.join_cons, whole]
    simp [text, String.append_assoc]

theorem not_dangles_of_splits {piece : Section} {group : List Section}
    (oneLine : OneLine piece.path) (splits : piece.Splits group) :
    ¬Dangles piece.contents.toList := by
  induction group generalizing piece with
  | nil => exact absurd rfl splits.nonempty
  | cons first others ih =>
    obtain ⟨⟨firstOneLine, seamless⟩, recoverable⟩ := List.forall_mem_cons.1 splits.recoverable
    have free : ¬EndsInSeam first.contents.toList := mt holdsSeam_of_endsInSeam seamless
    have whole := congrArg String.toList splits.text
    rw [List.map_cons, String.join_cons, String.toList_append,
      ← List.append_nil piece.text.toList] at whole
    have contents := (Document.body_of_text firstOneLine oneLine whole).2
    rw [List.append_nil] at contents
    cases others with
    | nil =>
      simp only [List.map_nil, String.join_nil, String.toList_empty, List.append_nil,
        List.append_cancel_right_eq] at contents
      exact contents ▸ not_dangles_of_free free
    | cons second others =>
      obtain ⟨inner, joined⟩ := exists_text_join second others
      have secondOneLine := (recoverable second List.mem_cons_self).1
      have settled := @ih ⟨second.path, inner⟩ secondOneLine
        ⟨List.cons_ne_nil _ _, recoverable, joined⟩
      have split : piece.contents.toList =
          first.contents.toList ++ seam second.path.toList ++ '\n' :: inner.toList := by
        rw [joined, toList_text] at contents
        rw [List.append_assoc, seam_line, String.ofList_toList]
        simpa [← List.append_assoc] using contents.symm
      rw [split]
      rwa [dangles_beyond_iff free secondOneLine]

theorem exists_splits_iff (piece : Section) (oneLine : OneLine piece.path) :
    (∃ group, piece.Splits group) ↔ ¬Dangles piece.contents.toList := by
  refine ⟨?_, exists_splits piece oneLine⟩
  rintro ⟨group, splits⟩
  exact not_dangles_of_splits oneLine splits

end Section

namespace Document

def Renders (file : Bytes × String) (group : List Section) : Prop :=
  group ≠ [] ∧ String.join (group.map Section.text) = (Section.ofFile file.1 file.2).text

theorem text_ofFiles_of_renders {files : List (Bytes × String)} {groups : List (List Section)}
    (rendered : List.Forall₂ Renders files groups) :
    (ofFiles files).text = (ofSections groups.flatten).text := by
  rw [ofFiles_eq_ofSections, text_ofSections, text_ofSections]
  congr 1
  induction rendered with
  | nil => rfl
  | cons renders _ ih =>
    rw [List.map_cons, List.map_cons, String.join_cons, ih, ← renders.2, List.flatten_cons,
      List.map_append, String.join_append]

theorem forall₂_splits_iff {files : List (Bytes × String)} {groups : List (List Section)} :
    List.Forall₂ (fun file group => (Section.ofFile file.1 file.2).Splits group) files groups ↔
      sections (ofFiles files).text = .ok groups.flatten ∧ List.Forall₂ Renders files groups := by
  have parts : List.Forall₂ (fun file group => (Section.ofFile file.1 file.2).Splits group)
      files groups ↔
      (∀ piece ∈ groups.flatten, piece.Recoverable) ∧ List.Forall₂ Renders files groups := by
    induction files generalizing groups with
    | nil => cases groups <;> simp
    | cons file files ih =>
      cases groups with
      | nil => simp
      | cons group groups =>
        simp only [List.forall₂_cons, ih, List.flatten_cons, List.forall_mem_append]
        constructor
        next =>
          rintro ⟨splits, recoverable, rendered⟩
          exact ⟨⟨splits.recoverable, recoverable⟩, ⟨splits.nonempty, splits.text⟩, rendered⟩
        next =>
          rintro ⟨⟨recoverable, others⟩, ⟨nonempty, text⟩, rendered⟩
          exact ⟨⟨nonempty, recoverable, text⟩, others, rendered⟩
  rw [parts]
  constructor
  next =>
    rintro ⟨recoverable, rendered⟩
    exact ⟨sections_eq_ok_iff.2 ⟨text_ofFiles_of_renders rendered, recoverable⟩, rendered⟩
  next =>
    rintro ⟨read, rendered⟩
    exact ⟨(sections_eq_ok_iff.1 read).2, rendered⟩

theorem exists_forall₂_splits_iff (files : List (Bytes × String)) :
    (∃ groups, List.Forall₂ (fun file group => (Section.ofFile file.1 file.2).Splits group)
      files groups) ↔ ∀ file ∈ files, ∃ group, (Section.ofFile file.1 file.2).Splits group := by
  induction files with
  | nil => simp
  | cons file files ih =>
    rw [List.forall_mem_cons, ← ih]
    simp only [List.forall₂_cons_left_iff]
    constructor
    next =>
      rintro ⟨_, group, groups, splits, others, rfl⟩
      exact ⟨⟨group, splits⟩, groups, others⟩
    next =>
      rintro ⟨⟨group, splits⟩, groups, others⟩
      exact ⟨_, group, groups, splits, others, rfl⟩

theorem sections_ofFiles_grouped_iff (files : List (Bytes × String))
    (oneLine : ∀ file ∈ files, Section.OneLine (Utf8.lossy file.1)) :
    (∃ groups : List (List Section), sections (ofFiles files).text = .ok groups.flatten ∧
      List.Forall₂ (fun file group => group ≠ [] ∧
        String.join (group.map Section.text) = (Section.ofFile file.1 file.2).text) files groups) ↔
      ∀ file ∈ files, ¬Section.Dangles file.2.toList := by
  apply (exists_congr fun groups => (@forall₂_splits_iff files groups).symm).trans
  apply (exists_forall₂_splits_iff files).trans
  exact forall₂_congr fun file member =>
    Section.exists_splits_iff (.ofFile file.1 file.2) (oneLine file member)

def seamedFiles : List (Bytes × String) :=
  [(Utf8.encode "a.go", "x\n```\n\n## fake.go\n\n```go\ny"), (Utf8.encode "b.go", "z")]

theorem sections_ofFiles_grouped_seamed :
    (∀ file ∈ seamedFiles, Section.OneLine (Utf8.lossy file.1)) ∧
      ∃ groups : List (List Section),
        sections (ofFiles seamedFiles).text = .ok groups.flatten ∧
          List.Forall₂ (fun file group => group ≠ [] ∧
            String.join (group.map Section.text) = (Section.ofFile file.1 file.2).text)
            seamedFiles groups := by
  have oneLine : ∀ file ∈ seamedFiles, Section.OneLine (Utf8.lossy file.1) := by
    simp [seamedFiles, Section.OneLine]
  refine ⟨oneLine, (sections_ofFiles_grouped_iff seamedFiles oneLine).2 ?_⟩
  have settled {text : List Char} (last : text.getLast? ≠ some 'o') : ¬Section.Dangles text :=
    Section.not_dangles_of_free (mt Section.getLast?_of_endsInSeam last)
  exact List.forall_mem_cons.2 ⟨settled (by decide), List.forall_mem_singleton.2 (settled (by decide))⟩

-- A seam at the end of the contents: its opener takes the line break of the closing fence.
def danglingFiles : List (Bytes × String) :=
  [(Utf8.encode "a.go", "x\n```\n\n## fake.go\n\n```go")]

theorem sections_ofFiles_dangling :
    (∀ file ∈ danglingFiles, Section.OneLine (Utf8.lossy file.1)) ∧
      sections (ofFiles danglingFiles).text = .error ⟨59, .unterminated "fake.go"⟩ := by
  have oneLine : Section.OneLine (Utf8.lossy (Utf8.encode "a.go")) := by simp [Section.OneLine]
  refine ⟨List.forall_mem_singleton.2 oneLine, ?_⟩
  have opened := @opener?_text (.ofFile (Utf8.encode "a.go") "x\n```\n\n## fake.go\n\n```go")
    oneLine []
  have closed : splitBlock? [] ("x\n```\n\n## fake.go\n\n```go".toList ++
      Section.closer.toList ++ []) =
      some (['x'], "## fake.go\n\n```go\n```\n\n".toList) := by
    decide
  have fakeOpened : opener? "## fake.go\n\n```go\n```\n\n".toList =
      some ("fake.go".toList, "```\n\n".toList) := by
    decide
  have unclosed : splitBlock? [] "```\n\n".toList = none := by decide
  rw [ofFiles_eq_ofSections, sections, read, text_ofSections_toList, dropStart?_append]
  simp only [danglingFiles, List.map_singleton, List.flatMap_singleton]
  rw [← List.append_nil (Section.text _).toList, readFrom_block opened closed]
  simp only [readFrom_unclosed fakeOpened unclosed, Reading.sections, Section.ofFile,
    Utf8.lossy_encode, String.ofList_toList]
  rfl

end Document

end SourceBook
