import SourceBook.Document.Boundary
import SourceBook.Document.Reading

set_option autoImplicit false

namespace SourceBook

namespace Section

theorem toList_headingMark : headingMark.toList = ['#', '#', ' '] := by decide

theorem toList_blockStart :
    blockStart.toList = ['\n', '\n', '`', '`', '`', 'g', 'o', '\n'] := by decide

theorem toList_closer : closer.toList = ['\n', '`', '`', '`', '\n', '\n'] := by decide

theorem toList_opener (path : String) :
    (opener path).toList = headingMark.toList ++ path.toList ++ blockStart.toList := by
  simp [opener]

theorem seam_eq (path : List Char) :
    seam path =
      closer.toList ++ headingMark.toList ++ path ++ ['\n', '\n', '`', '`', '`', 'g', 'o'] := by
  rw [seam]
  rfl

end Section

namespace Document

theorem opener?_eq_some_iff {text path body : List Char} :
    opener? text = some (path, body) ↔
      '\n' ∉ path ∧
        text = Section.headingMark.toList ++ path ++ Section.blockStart.toList ++ body := by
  constructor
  next =>
    intro opened
    simp only [opener?] at opened
    split at opened
    next => contradiction
    next marked start =>
      split at opened
      next => contradiction
      next after block =>
        rw [Option.some.injEq, Prod.mk.injEq] at opened
        rw [dropStart?_eq_some_iff] at start block
        rcases opened with ⟨rfl, rfl⟩
        constructor
        next =>
          intro broken
          have := List.all_takeWhile (l := marked) (p := (· ≠ '\n'))
          rw [List.all_eq_true] at this
          simpa using this _ broken
        next =>
          rw [start, List.append_assoc, List.append_assoc, ← block,
            List.takeWhile_append_dropWhile]
  next =>
    rintro ⟨oneLine, rfl⟩
    have inLine : ∀ c ∈ path, decide (c ≠ '\n') = true := by
      intro c member
      exact decide_eq_true fun same => oneLine (same ▸ member)
    have after : Section.blockStart.toList ++ body =
        '\n' :: (Section.blockStart.toList.tail ++ body) := by
      rw [Section.toList_blockStart]
      rfl
    rw [opener?, List.append_assoc, List.append_assoc, dropStart?_append]
    simp only [List.dropWhile_append_of_pos inLine, List.takeWhile_append_of_pos inLine]
    rw [after, List.dropWhile_cons_of_neg (by simp), List.takeWhile_cons_of_neg (by simp), ← after,
      dropStart?_append, List.append_nil]

theorem opener?_opener {path : String} (oneLine : Section.OneLine path) (body : List Char) :
    opener? ((Section.opener path).toList ++ body) = some (path.toList, body) := by
  rw [Section.toList_opener]
  exact opener?_eq_some_iff.2 ⟨oneLine, rfl⟩

theorem eq_opener_append {text path body : List Char} (opened : opener? text = some (path, body)) :
    Section.OneLine (String.ofList path) ∧
      text = (Section.opener (String.ofList path)).toList ++ body := by
  rw [Section.OneLine, Section.toList_opener, String.toList_ofList]
  exact opener?_eq_some_iff.1 opened

def Resumes (text : List Char) : Prop :=
  text = [] ∨ ∃ path body, opener? text = some (path, body)

theorem blockEnd?_eq_some_iff {text after : List Char} :
    blockEnd? text = some after ↔ text = Section.closer.toList ++ after ∧ Resumes after := by
  have resumes (rest : List Char) : rest = [] ∨ (opener? rest).isSome ↔ Resumes rest := by
    simp only [Resumes, Option.isSome_iff_exists, Prod.exists]
  simp only [blockEnd?, ← dropStart?_eq_some_iff]
  cases dropStart? Section.closer.toList text with
  | none => simp
  | some rest =>
    simp only [Option.ite_none_right_eq_some, Option.some.injEq]
    constructor
    next => rintro ⟨resumed, rfl⟩; exact ⟨rfl, (resumes _).1 resumed⟩
    next => rintro ⟨rfl, resumed⟩; exact ⟨(resumes _).2 resumed, rfl⟩

theorem splitBlock?_eq_map (seen text : List Char) :
    splitBlock? seen text =
      (splitBlock? [] text).map fun block => (seen.reverse ++ block.1, block.2) := by
  induction text generalizing seen with
  | nil => rfl
  | cons head rest ih =>
    simp only [splitBlock?]
    cases blockEnd? (head :: rest) with
    | some after => simp
    | none => simp [ih (head :: seen), ih [head], Function.comp_def]

theorem splitBlock?_cons (head : Char) (rest : List Char) :
    splitBlock? [] (head :: rest) =
      match blockEnd? (head :: rest) with
      | some after => some ([], after)
      | none => (splitBlock? [] rest).map fun block => (head :: block.1, block.2) := by
  rw [splitBlock?, splitBlock?_eq_map [head]]
  rfl

-- The contents end at the first place where a block can end.
theorem splitBlock?_eq_some_iff {text contents after : List Char} :
    splitBlock? [] text = some (contents, after) ↔
      text = contents ++ Section.closer.toList ++ after ∧ Resumes after ∧
        ∀ before inner, contents = before ++ inner → inner ≠ [] →
          blockEnd? (inner ++ Section.closer.toList ++ after) = none := by
  induction text generalizing contents with
  | nil => simp [splitBlock?, Section.toList_closer]
  | cons head rest ih =>
    rw [splitBlock?_cons]
    cases ended : blockEnd? (head :: rest) with
    | some next =>
      simp only [Option.some.injEq, Prod.mk.injEq]
      obtain ⟨whole, resumes⟩ := blockEnd?_eq_some_iff.1 ended
      constructor
      next =>
        rintro ⟨rfl, rfl⟩
        refine ⟨whole, resumes, fun before inner parts nonempty => ?_⟩
        exact absurd (List.append_eq_nil_iff.1 parts.symm).2 nonempty
      next =>
        rintro ⟨split, -, first⟩
        cases contents with
        | nil => exact ⟨rfl, List.append_cancel_left (whole.symm.trans split)⟩
        | cons c later =>
          have := first [] (c :: later) rfl (by simp)
          rw [← split, ended] at this
          contradiction
    | none =>
      simp only [Option.map_eq_some_iff, Prod.mk.injEq, Prod.exists]
      constructor
      next =>
        rintro ⟨later, _, found, rfl, rfl⟩
        obtain ⟨split, resumes, first⟩ := ih.1 found
        refine ⟨by rw [split]; rfl, resumes, fun before inner parts nonempty => ?_⟩
        cases before with
        | nil =>
          rw [List.nil_append] at parts
          rw [← parts, List.cons_append, List.cons_append, ← split, ended]
        | cons c before => exact first before inner (List.cons.inj parts).2 nonempty
      next =>
        rintro ⟨split, resumes, first⟩
        cases contents with
        | nil =>
          rw [blockEnd?_eq_some_iff.2 ⟨split, resumes⟩] at ended
          contradiction
        | cons c later =>
          obtain ⟨rfl, parts⟩ := List.cons.inj split
          have found := ih.2 ⟨parts, resumes, fun before inner parts nonempty =>
            first (head :: before) inner (congrArg (head :: ·) parts) nonempty⟩
          exact ⟨later, after, found, rfl, rfl⟩

theorem ne_closer_of_suffix {path part next body : List Char} (oneLine : '\n' ∉ path)
    (nonempty : part ≠ []) (suffix : part <:+ (Section.seam path).tail) :
    part ++ '\n' :: body ≠ Section.closer.toList ++ next := by
  intro same
  rw [Section.toList_closer] at same
  simp only [Section.seam_eq, Section.toList_closer, Section.toList_headingMark, List.cons_append,
    List.nil_append, List.tail_cons, List.suffix_cons_iff] at suffix
  rcases suffix with rfl | rfl | rfl | rfl | rfl | rfl | rfl | rfl | ⟨front, whole⟩
  all_goals try simp at same
  obtain ⟨line, rfl, rfl⟩ | ⟨line, rfl, fenced⟩ := List.append_eq_append_iff.1 whole
  next =>
    cases line with
    | nil => simp at same
    | cons c line =>
      rw [List.cons_append, List.cons_append] at same
      exact oneLine (by simp [(List.cons.inj same).1])
  next =>
    have suffix : part <:+ ['\n', '\n', '`', '`', '`', 'g', 'o'] := ⟨line, fenced.symm⟩
    simp only [List.suffix_cons_iff, List.suffix_nil, nonempty, or_false] at suffix
    rcases suffix with rfl | rfl | rfl | rfl | rfl | rfl | rfl
    all_goals simp at same

theorem blockEnd?_seam {path after next : List Char} (oneLine : '\n' ∉ path)
    (ends : after = [] ∨ after.head? = some '\n') :
    blockEnd? (Section.seam path ++ after ++ Section.closer.toList ++ next) ≠ none := by
  have broken : ∃ body, after ++ Section.closer.toList ++ next = '\n' :: body := by
    rcases ends with rfl | first
    next => exact ⟨_, by rw [Section.toList_closer]; rfl⟩
    next =>
      obtain ⟨body, rfl⟩ := List.head?_eq_some_iff.1 first
      exact ⟨_, rfl⟩
  rcases broken with ⟨body, broken⟩
  have block : Section.seam path ++ after ++ Section.closer.toList ++ next =
      Section.closer.toList ++
        (Section.headingMark.toList ++ path ++ Section.blockStart.toList ++ body) := by
    rw [List.append_assoc, List.append_assoc, ← List.append_assoc after, broken, Section.seam_eq,
      Section.toList_blockStart]
    simp
  rw [blockEnd?_eq_some_iff.2 ⟨block, .inr ⟨path, body, opener?_eq_some_iff.2 ⟨oneLine, rfl⟩⟩⟩]
  simp

theorem seam_of_blockEnd? {inner next : List Char} (nonempty : inner ≠ [])
    (ended : blockEnd? (inner ++ Section.closer.toList ++ next) ≠ none) :
    ∃ path after, inner = Section.seam path ++ after ∧ '\n' ∉ path ∧
      (after = [] ∨ after.head? = some '\n') := by
  obtain ⟨rest, ended⟩ := Option.ne_none_iff_exists'.1 ended
  obtain ⟨whole, rfl | ⟨path, body, opened⟩⟩ := blockEnd?_eq_some_iff.1 ended
  next =>
    have size := congrArg List.length whole
    simp only [List.length_append, List.length_nil] at size
    exact absurd (List.length_eq_zero_iff.1 (by omega)) nonempty
  next =>
    obtain ⟨oneLine, rfl⟩ := opener?_eq_some_iff.1 opened
    have split : inner ++ (Section.closer.toList ++ next) = Section.seam path ++ '\n' :: body := by
      rw [← List.append_assoc, whole, Section.seam_eq, Section.toList_blockStart]
      simp
    obtain ⟨part, seam, beyond⟩ | ⟨after, rfl, beyond⟩ := List.append_eq_append_iff.1 split
    next =>
      cases part with
      | nil => exact ⟨path, [], by simpa using seam.symm, oneLine, .inl rfl⟩
      | cons c part =>
        refine absurd beyond.symm (ne_closer_of_suffix oneLine (by simp) ?_)
        rw [seam]
        cases inner with
        | nil => contradiction
        | cons first inner => exact List.suffix_append _ _
    next =>
      refine ⟨path, after, rfl, oneLine, ?_⟩
      cases after with
      | nil => exact .inl rfl
      | cons c after => exact .inr (congrArg some (List.cons.inj beyond).1.symm)

theorem holdsSeam_iff {contents : String} (next : List Char) :
    Section.HoldsSeam contents ↔
      ∃ before inner, contents.toList = before ++ inner ∧ inner ≠ [] ∧
        blockEnd? (inner ++ Section.closer.toList ++ next) ≠ none := by
  constructor
  next =>
    rintro ⟨before, path, after, split, oneLine, ends⟩
    refine ⟨before, Section.seam path ++ after, ?_, ?_, blockEnd?_seam oneLine ends⟩
    next => rw [split, List.append_assoc]
    next => simp [Section.seam_eq, Section.toList_closer]
  next =>
    rintro ⟨before, inner, split, nonempty, ended⟩
    obtain ⟨path, after, rfl, oneLine, ends⟩ := seam_of_blockEnd? nonempty ended
    exact ⟨before, path, after, by rw [split, List.append_assoc], oneLine, ends⟩

theorem splitBlock?_eq_some_iff_not_holdsSeam {text contents after : List Char} :
    splitBlock? [] text = some (contents, after) ↔
      text = contents ++ Section.closer.toList ++ after ∧ Resumes after ∧
        ¬Section.HoldsSeam (String.ofList contents) := by
  rw [splitBlock?_eq_some_iff, holdsSeam_iff after, String.toList_ofList]
  simp only [not_exists, not_and, ne_eq, Classical.not_not]

end Document

end SourceBook
