import Mathlib.Data.List.Basic
import Mathlib.Data.Set.Basic
import SourceBook.Proofs.Collection
import SourceBook.Proofs.Document.RoundTrip
import SourceBook.Proofs.Walk.Entries

set_option autoImplicit false

namespace SourceBook

def Name.IsLine (name : Name) : Prop :=
  ∃ text : String, name.bytes = Utf8.encode text ∧ Section.OneLine text

theorem Path.exists_line {location : Location} (lines : ∀ name ∈ location, name.IsLine) :
    ∃ text, joinWith slash (location.map Name.bytes) = Utf8.encode text ∧
      Section.OneLine text := by
  induction location with
  | nil => exact ⟨"", rfl, by simp [Section.OneLine]⟩
  | cons name rest ih =>
    obtain ⟨⟨text, bytes, oneLine⟩, restLines⟩ := List.forall_mem_cons.1 lines
    cases rest with
    | nil => exact ⟨text, bytes, oneLine⟩
    | cons next rest =>
      obtain ⟨later, joined, laterOneLine⟩ := ih restLines
      refine ⟨text ++ "/" ++ later, ?_, ?_⟩
      next =>
        have divided : Utf8.encode "/" = [slash] := by decide
        simp only [List.map_cons] at joined
        simp only [List.map_cons, joinWith, joined, bytes, Utf8.encode_append, divided,
          List.append_assoc, List.singleton_append]
      next =>
        simp only [Section.OneLine] at oneLine laterOneLine
        simp [Section.OneLine, oneLine, laterOneLine]

def Section.ofSource (source : Location × String) : Section :=
  ofFile (joinWith slash (source.1.map Name.bytes)) source.2

theorem Section.mem_of_holdsSeam {contents : String} (holds : HoldsSeam contents) :
    '`' ∈ contents.toList := by
  obtain ⟨before, path, after, whole, -, -⟩ := holds
  simp [whole, seam_eq, toList_closer]

theorem Section.ofSource_inj {first second : Location × String} (firstNonempty : first.1 ≠ [])
    (secondNonempty : second.1 ≠ []) (firstLines : ∀ name ∈ first.1, name.IsLine)
    (secondLines : ∀ name ∈ second.1, name.IsLine) (same : ofSource first = ofSource second) :
    first = second := by
  obtain ⟨path, contents⟩ := Section.mk.inj same
  obtain ⟨firstText, firstBytes, -⟩ := Path.exists_line firstLines
  obtain ⟨secondText, secondBytes, -⟩ := Path.exists_line secondLines
  rw [firstBytes, secondBytes, Utf8.lossy_encode, Utf8.lossy_encode] at path
  apply Prod.ext _ contents
  apply Path.joinWith_bytes_injective firstNonempty secondNonempty
  rw [firstBytes, secondBytes, path]

namespace FileSystem

def Sources (files : FileSystem) (root : Bytes) : Set (Location × Bytes) :=
  {source | ∃ base inner text, files.lookUp root = .ok (.directory base inner) ∧
    files.Matches root base targetExtension source.1 ∧ source.2 = Utf8.encode text ∧
    files.HoldsText (Path.joinAll root source.1) text}

def sourceAt? (files : FileSystem) (root : Bytes) (names : Location) :
    Option (Location × String) :=
  match files.readText (Path.joinAll root names) with
  | .ok text => some (names, text)
  | .error _ => none

def sourceList (files : FileSystem) (root : Bytes) : List (Location × String) :=
  ((files.walk root).filterMap (files.foundAt? root targetExtension)).filterMap
    (files.sourceAt? root)

theorem sourceAt?_eq_some_iff {files : FileSystem} {root : Bytes} {names : Location}
    {source : Location × String} :
    files.sourceAt? root names = some source ↔
      source.1 = names ∧ files.HoldsText (Path.joinAll root names) source.2 := by
  rcases source with ⟨location, text⟩
  rw [sourceAt?]
  cases read : files.readText (Path.joinAll root names) with
  | ok held => simp [← readText_eq_ok_iff, read, eq_comm]
  | error cause => simp [← readText_eq_ok_iff, read]

theorem piece?_outcome {files : FileSystem} {root : Bytes} {names : Location}
    (relative : (Entry.below root names).relativePath = joinWith slash (names.map Name.bytes)) :
    (files.outcome (Entry.below root names)).piece? =
      (files.sourceAt? root names).map Section.ofSource := by
  have text : (files.outcome (Entry.below root names)).text =
      (files.readText (Path.joinAll root names)).mapError (.unreadable _) := rfl
  rw [Outcome.piece?, text, sourceAt?]
  cases files.readText (Path.joinAll root names) with
  | ok text => exact congrArg (fun path => some (Section.ofFile path text)) relative
  | error cause => rfl

section Root

variable {files : FileSystem} {root : Bytes} {base : Location} {inner : Listing}
  (resolved : files.lookUp root = .ok (.directory base inner))

include resolved

theorem mem_sourceList {source : Location × String} :
    source ∈ files.sourceList root ↔
      files.Matches root base targetExtension source.1 ∧
        files.HoldsText (Path.joinAll root source.1) source.2 := by
  simp only [sourceList, List.mem_filterMap, mem_filterMap_foundAt? resolved,
    sourceAt?_eq_some_iff]
  constructor
  next =>
    rintro ⟨names, isMatch, rfl, holds⟩
    exact ⟨isMatch, holds⟩
  next =>
    rintro ⟨isMatch, holds⟩
    exact ⟨source.1, isMatch, rfl, holds⟩

theorem nonempty_of_mem_sourceList : ∀ source ∈ files.sourceList root, source.1 ≠ [] :=
  fun _ member => ((mem_sourceList resolved).1 member).1.ne_nil

theorem sourceList_ascending :
    (files.sourceList root).Pairwise fun first second => first.1 < second.1 := by
  refine List.pairwise_filterMap.2 ((foundAt?_ascending resolved targetExtension).imp ?_)
  intro first second before firstSource firstHere secondSource secondHere
  rw [(sourceAt?_eq_some_iff.1 firstHere).1, (sourceAt?_eq_some_iff.1 secondHere).1]
  exact before

theorem mem_sources_iff {source : Location × Bytes} :
    source ∈ files.Sources root ↔
      ∃ text, source.2 = Utf8.encode text ∧ (source.1, text) ∈ files.sourceList root := by
  simp only [mem_sourceList resolved]
  constructor
  next =>
    rintro ⟨otherBase, otherInner, text, found, isMatch, data, holds⟩
    cases resolved.symm.trans found
    exact ⟨text, data, isMatch, holds⟩
  next =>
    rintro ⟨text, data, isMatch, holds⟩
    exact ⟨base, inner, text, resolved, isMatch, data, holds⟩

theorem mem_sourceList_iff {source : Location × String} :
    source ∈ files.sourceList root ↔ (source.1, Utf8.encode source.2) ∈ files.Sources root := by
  rcases source with ⟨names, text⟩
  rw [mem_sources_iff resolved]
  constructor
  next => exact fun member => ⟨text, rfl, member⟩
  next =>
    rintro ⟨other, data, member⟩
    obtain rfl := Utf8.encode_injective data
    exact member

theorem exists_document_eq :
    ∃ collection log, files.collect root = .ok (collection, log) ∧
      collection.document =
        Document.ofSections ((files.sourceList root).map Section.ofSource) := by
  have valid := validateRoot_eq_ok_iff.2 ⟨base, inner, resolved⟩
  obtain ⟨collection, log, collected, comes⟩ := exists_comesOf valid
  refine ⟨collection, log, collected, ?_⟩
  rw [comes.document, entries_eq, sourceList, List.map_map, List.filterMap_map,
    List.map_filterMap]
  congr 1
  apply List.filterMap_congr
  intro names member
  have nonempty := ((mem_filterMap_foundAt? resolved).1 member).ne_nil
  exact piece?_outcome (relativePath_below resolved nonempty)

end Root

def ReadsBack (source : Location × Bytes) : Prop :=
  (∀ name ∈ source.1, name.IsLine) ∧
    ∀ text, source.2 = Utf8.encode text → ¬Section.HoldsSeam text

theorem ReadsBack.recoverable {source : Location × String}
    (readsBack : ReadsBack (source.1, Utf8.encode source.2)) :
    (Section.ofSource source).Recoverable := by
  obtain ⟨text, bytes, oneLine⟩ := Path.exists_line readsBack.1
  constructor
  next =>
    rw [Section.ofSource, bytes, Section.ofFile, Utf8.lossy_encode]
    exact oneLine
  next => exact readsBack.2 source.2 rfl

section Restored

variable {first second : List (Location × String)}
  (firstReadsBack : ∀ source ∈ first, ReadsBack (source.1, Utf8.encode source.2))
  (secondReadsBack : ∀ source ∈ second, ReadsBack (source.1, Utf8.encode source.2))
  (same : (Document.ofSections (first.map Section.ofSource)).text =
    (Document.ofSections (second.map Section.ofSource)).text)

include firstReadsBack secondReadsBack same

theorem sections_eq_of_text_eq :
    first.map Section.ofSource = second.map Section.ofSource := by
  have firstRead := Document.sections_eq_ok_iff.2
    ⟨rfl, List.forall_mem_map.2 fun source member => (firstReadsBack source member).recoverable⟩
  have secondRead := Document.sections_eq_ok_iff.2
    ⟨rfl, List.forall_mem_map.2 fun source member => (secondReadsBack source member).recoverable⟩
  rw [same, secondRead] at firstRead
  exact (Except.ok.inj firstRead).symm

theorem mem_of_text_eq (firstNonempty : ∀ source ∈ first, source.1 ≠ [])
    (secondNonempty : ∀ source ∈ second, source.1 ≠ []) {source : Location × String}
    (member : source ∈ first) : source ∈ second := by
  have sections := sections_eq_of_text_eq firstReadsBack secondReadsBack same
  have shown : Section.ofSource source ∈ second.map Section.ofSource :=
    sections ▸ List.mem_map_of_mem member
  obtain ⟨other, otherMember, equal⟩ := List.mem_map.1 shown
  have := Section.ofSource_inj (secondNonempty other otherMember) (firstNonempty source member)
    (secondReadsBack other otherMember).1 (firstReadsBack source member).1 equal
  exact this ▸ otherMember

end Restored

theorem exists_documents_eq_iff {first second : FileSystem} {firstRoot secondRoot : Bytes}
    (firstValid : first.validateRoot firstRoot = .ok ())
    (secondValid : second.validateRoot secondRoot = .ok ()) :
    ∃ firstCollection firstLog secondCollection secondLog,
      first.collect firstRoot = .ok (firstCollection, firstLog) ∧
      second.collect secondRoot = .ok (secondCollection, secondLog) ∧
      (first.Sources firstRoot = second.Sources secondRoot →
        firstCollection.document = secondCollection.document) ∧
      ((∀ source ∈ first.Sources firstRoot ∪ second.Sources secondRoot, ReadsBack source) →
        firstCollection.document.text = secondCollection.document.text →
          first.Sources firstRoot = second.Sources secondRoot) := by
  obtain ⟨firstBase, firstInner, firstResolved⟩ := validateRoot_eq_ok_iff.1 firstValid
  obtain ⟨secondBase, secondInner, secondResolved⟩ := validateRoot_eq_ok_iff.1 secondValid
  obtain ⟨firstCollection, firstLog, firstCollected, firstDocument⟩ :=
    exists_document_eq firstResolved
  obtain ⟨secondCollection, secondLog, secondCollected, secondDocument⟩ :=
    exists_document_eq secondResolved
  refine ⟨firstCollection, firstLog, secondCollection, secondLog, firstCollected, secondCollected,
    ?_, ?_⟩
  next =>
    intro same
    have sources : first.sourceList firstRoot = second.sourceList secondRoot := by
      apply eq_of_ascending (sourceList_ascending firstResolved)
        (sourceList_ascending secondResolved)
      intro source
      rw [mem_sourceList_iff firstResolved, mem_sourceList_iff secondResolved, same]
    rw [firstDocument, secondDocument, sources]
  next =>
    intro readsBack same
    rw [firstDocument, secondDocument] at same
    have firstReadsBack : ∀ source ∈ first.sourceList firstRoot,
        ReadsBack (source.1, Utf8.encode source.2) := fun source member =>
      readsBack _ (.inl ((mem_sourceList_iff firstResolved).1 member))
    have secondReadsBack : ∀ source ∈ second.sourceList secondRoot,
        ReadsBack (source.1, Utf8.encode source.2) := fun source member =>
      readsBack _ (.inr ((mem_sourceList_iff secondResolved).1 member))
    have firstNonempty := nonempty_of_mem_sourceList firstResolved
    have secondNonempty := nonempty_of_mem_sourceList secondResolved
    apply Set.ext
    intro source
    rw [mem_sources_iff firstResolved, mem_sources_iff secondResolved]
    apply exists_congr
    intro text
    apply and_congr_right
    intro _
    constructor
    next => exact mem_of_text_eq firstReadsBack secondReadsBack same firstNonempty secondNonempty
    next =>
      exact mem_of_text_eq secondReadsBack firstReadsBack same.symm secondNonempty firstNonempty

theorem isName_main : isName (Utf8.encode "main.go") = true := by decide

-- The same source as in `mixedFiles`, beside other things and seen from its own directory.
def plainFiles : FileSystem where
  top := .directory (.ofText "d" (by decide))
    (.leaf (.ofText "notes.txt" (by decide)) (.file [255]) <|
      .leaf (.ofText "main.go" isName_main) (.file (Utf8.encode "package main\n")) <|
      .directory (.ofText "empty" (by decide)) .nil .nil) .nil
  cwd := [.ofText "d" (by decide)]
  distinct := by decide

theorem exists_documents_eq_iff_mixed_plain :
    mixedFiles.validateRoot (Utf8.encode "src") = .ok () ∧
      plainFiles.validateRoot (Utf8.encode ".") = .ok () ∧
      mixedFiles.Sources (Utf8.encode "src") = plainFiles.Sources (Utf8.encode ".") ∧
      (∀ source ∈ mixedFiles.Sources (Utf8.encode "src") ∪ plainFiles.Sources (Utf8.encode "."),
        ReadsBack source) ∧
      ∃ firstCollection firstLog secondCollection secondLog,
        mixedFiles.collect (Utf8.encode "src") = .ok (firstCollection, firstLog) ∧
        plainFiles.collect (Utf8.encode ".") = .ok (secondCollection, secondLog) ∧
        firstCollection.document = secondCollection.document := by
  have firstValid : mixedFiles.validateRoot (Utf8.encode "src") = .ok () := rfl
  have secondValid : plainFiles.validateRoot (Utf8.encode ".") = .ok () := rfl
  have sourceList : mixedFiles.sourceList (Utf8.encode "src") =
      [([.ofText "main.go" isName_main], "package main\n")] := rfl
  have sameList : plainFiles.sourceList (Utf8.encode ".") =
      mixedFiles.sourceList (Utf8.encode "src") := rfl
  obtain ⟨_, _, firstResolved⟩ := validateRoot_eq_ok_iff.1 firstValid
  obtain ⟨_, _, secondResolved⟩ := validateRoot_eq_ok_iff.1 secondValid
  have same : mixedFiles.Sources (Utf8.encode "src") = plainFiles.Sources (Utf8.encode ".") := by
    apply Set.ext
    intro source
    rw [mem_sources_iff firstResolved, mem_sources_iff secondResolved, sameList]
  have readsBack : ∀ source ∈ mixedFiles.Sources (Utf8.encode "src"), ReadsBack source := by
    rintro ⟨names, data⟩ member
    obtain ⟨text, rfl, listed⟩ := (mem_sources_iff firstResolved).1 member
    rw [sourceList, List.mem_singleton, Prod.mk.injEq] at listed
    obtain ⟨rfl, rfl⟩ := listed
    constructor
    next => exact List.forall_mem_singleton.2 ⟨"main.go", rfl, by simp [Section.OneLine]⟩
    next =>
      intro text encoded holds
      rw [← Utf8.encode_injective encoded] at holds
      exact absurd (Section.mem_of_holdsSeam holds) (by decide)
  obtain ⟨firstCollection, firstLog, secondCollection, secondLog, firstCollected, secondCollected,
    canonical, -⟩ := exists_documents_eq_iff firstValid secondValid
  refine ⟨firstValid, secondValid, same, ?_, firstCollection, firstLog, secondCollection,
    secondLog, firstCollected, secondCollected, canonical same⟩
  rw [← same, Set.union_self]
  exact readsBack

end FileSystem

end SourceBook
