import SourceBook.FileSystem.Path

set_option autoImplicit false

namespace SourceBook

namespace Name

def ofText (text : String) (valid : isName (Utf8.encode text) = true) : Name :=
  ⟨Utf8.encode text, valid⟩

theorem bytes_ne_nil (name : Name) : name.bytes ≠ [] := by
  have valid := name.valid
  simp only [isName, Bool.and_eq_true, bne_iff_ne] at valid
  exact valid.1.1.1.1.1

theorem bytes_ne_dot (name : Name) : name.bytes ≠ [dot] := by
  have valid := name.valid
  simp only [isName, Bool.and_eq_true, bne_iff_ne] at valid
  exact valid.1.1.1.2

theorem slash_not_mem (name : Name) : slash ∉ name.bytes := by
  have valid := name.valid
  simp only [isName, Bool.and_eq_true, Bool.not_eq_true', List.contains_eq_mem] at valid
  exact of_decide_eq_false valid.1.2

theorem zero_not_mem (name : Name) : 0 ∉ name.bytes := by
  have valid := name.valid
  simp only [isName, Bool.and_eq_true, Bool.not_eq_true', List.contains_eq_mem] at valid
  exact of_decide_eq_false valid.2

theorem bytes_injective {first second : Name} (same : first.bytes = second.bytes) :
    first = second := by
  cases first
  cases second
  cases same
  rfl

theorem getLast?_append_ne_slash (path : Bytes) (name : Name) :
    (path ++ name.bytes).getLast? ≠ some slash := by
  intro last
  have ends := List.getLast?_eq_some_getLast name.bytes_ne_nil
  rw [List.getLast?_append, ends, Option.some_or, Option.some.injEq] at last
  exact name.slash_not_mem (last ▸ List.getLast_mem name.bytes_ne_nil)

end Name

namespace Path

def divider (directory : Bytes) : Bytes :=
  if directory = [] ∨ directory.getLast? = some slash then [] else [slash]

theorem join_eq (directory entry : Bytes) :
    join directory entry = directory ++ divider directory ++ entry := by
  rw [join, divider]
  split
  next => rw [List.append_nil]
  next => rw [List.append_assoc]; rfl

theorem divider_append_name (directory : Bytes) (name : Name) :
    divider (directory ++ name.bytes) = [slash] := by
  rw [divider, if_neg]
  intro ends
  rcases ends with empty | last
  next => exact name.bytes_ne_nil (List.append_eq_nil_iff.1 empty).2
  next => exact name.getLast?_append_ne_slash directory last

theorem joinAll_append_name (directory : Bytes) (name : Name) (rest : Location) :
    joinAll (directory ++ name.bytes) rest =
      directory ++ joinWith slash ((name :: rest).map Name.bytes) := by
  induction rest generalizing directory name with
  | nil => rfl
  | cons next rest ih =>
    rw [joinAll, List.foldl_cons, join_eq, divider_append_name]
    apply (ih _ next).trans
    simp only [List.map_cons, joinWith, List.append_assoc, List.singleton_append]

theorem joinAll_eq (directory : Bytes) {location : Location} (nonempty : location ≠ []) :
    joinAll directory location =
      directory ++ divider directory ++ joinWith slash (location.map Name.bytes) := by
  cases location with
  | nil => contradiction
  | cons name rest =>
    rw [joinAll, List.foldl_cons, join_eq]
    exact joinAll_append_name _ name rest

theorem splitAtEach_joinWith_bytes {location : Location} (nonempty : location ≠ []) :
    splitAtEach slash (joinWith slash (location.map Name.bytes)) = location.map Name.bytes := by
  apply splitAtEach_joinWith (by simpa using nonempty)
  intro part member
  obtain ⟨name, -, rfl⟩ := List.mem_map.1 member
  exact name.slash_not_mem

theorem joinWith_bytes_injective {first second : Location} (firstNonempty : first ≠ [])
    (secondNonempty : second ≠ [])
    (same : joinWith slash (first.map Name.bytes) = joinWith slash (second.map Name.bytes)) :
    first = second := by
  have names := splitAtEach_joinWith_bytes firstNonempty
  rw [same, splitAtEach_joinWith_bytes secondNonempty] at names
  exact ((List.map_inj_right fun _ _ => Name.bytes_injective).1 names).symm

theorem joinAll_injective (directory : Bytes) {first second : Location}
    (firstNonempty : first ≠ []) (secondNonempty : second ≠ [])
    (same : joinAll directory first = joinAll directory second) : first = second := by
  rw [joinAll_eq directory firstNonempty, joinAll_eq directory secondNonempty] at same
  exact joinWith_bytes_injective firstNonempty secondNonempty (List.append_cancel_left same)

theorem joinAll_cons (directory : Bytes) (name : Name) (rest : Location) :
    joinAll directory (name :: rest) =
      joinAll (directory ++ divider directory ++ name.bytes) rest := by
  rw [joinAll, List.foldl_cons, join_eq]
  rfl

theorem zero_not_mem_joinAll {directory : Bytes} (absent : 0 ∉ directory) (location : Location) :
    0 ∉ joinAll directory location := by
  induction location generalizing directory with
  | nil => exact absent
  | cons name rest ih =>
    rw [joinAll_cons]
    have divided : 0 ∉ divider directory := by
      rw [divider]
      split <;> decide
    exact ih (by simp [absent, divided, name.zero_not_mem])

theorem joinAll_concat (directory : Bytes) (front : Location) (name : Name) :
    joinAll directory (front ++ [name]) =
      joinAll directory front ++ divider (joinAll directory front) ++ name.bytes := by
  simp only [joinAll, List.foldl_append, List.foldl_cons, List.foldl_nil, join_eq]

theorem getLast?_joinAll_ne_slash (directory : Bytes) {location : Location}
    (nonempty : location ≠ []) : (joinAll directory location).getLast? ≠ some slash := by
  rw [← List.dropLast_concat_getLast nonempty, joinAll_concat]
  exact Name.getLast?_append_ne_slash _ _

theorem isAbsolute_joinAll {directory : Bytes} (rooted : directory ≠ []) (location : Location) :
    isAbsolute (joinAll directory location) = isAbsolute directory := by
  cases location with
  | nil => rfl
  | cons name rest =>
    cases directory with
    | nil => contradiction
    | cons first directory =>
      rw [joinAll_eq _ (List.cons_ne_nil name rest)]
      rfl

theorem exists_pieces_joinAll {directory : Bytes} (rooted : directory ≠ []) {location : Location}
    (nonempty : location ≠ []) :
    ∃ front tail, front ≠ [] ∧ (tail = [] ∨ tail = [[]]) ∧
      splitAtEach slash directory = front ++ tail ∧
      splitAtEach slash (joinAll directory location) = front ++ location.map Name.bytes := by
  rw [joinAll_eq directory nonempty, divider]
  by_cases ends : directory.getLast? = some slash
  next =>
    obtain ⟨front, rfl⟩ := List.getLast?_eq_some_iff.1 ends
    refine ⟨splitAtEach slash front, [[]], splitAtEach_ne_nil slash front, .inr rfl,
      splitAtEach_append_cons slash front [], ?_⟩
    rw [if_pos (.inr ends), List.append_nil, List.append_assoc, List.singleton_append,
      splitAtEach_append_cons, splitAtEach_joinWith_bytes nonempty]
  next =>
    refine ⟨splitAtEach slash directory, [], splitAtEach_ne_nil slash directory, .inl rfl,
      (List.append_nil _).symm, ?_⟩
    rw [if_neg (not_or.2 ⟨rooted, ends⟩), List.append_assoc, List.singleton_append,
      splitAtEach_append_cons, splitAtEach_joinWith_bytes nonempty]

theorem exists_steps_joinAll {directory : Bytes} (rooted : directory ≠ []) {location : Location}
    (nonempty : location ≠ []) :
    ∃ front tail, (tail = [] ∨ tail = [.inside]) ∧ steps directory = front ++ tail ∧
      steps (joinAll directory location) = front ++ location.map .down := by
  have downs : (location.map Name.bytes).map Step.ofPiece = location.map Step.down := by
    simp [List.map_map, Function.comp_def]
  have kept : (location.map Name.bytes).filter (· ≠ []) = location.map Name.bytes := by
    apply List.filter_eq_self.2
    intro part member
    obtain ⟨name, -, rfl⟩ := List.mem_map.1 member
    exact decide_eq_true name.bytes_ne_nil
  obtain ⟨front, tail, -, ends, pieces, piecesBelow⟩ := exists_pieces_joinAll rooted nonempty
  have noPiece : tail.filter (· ≠ []) = [] := by
    rcases ends with rfl | rfl <;> rfl
  refine ⟨(front.filter (· ≠ [])).map Step.ofPiece,
    if directory.getLast? = some slash then [.inside] else [], ?_, ?_, ?_⟩
  next => split <;> simp
  next => rw [steps, pieces, List.filter_append, noPiece, List.append_nil]
  next =>
    rw [steps, piecesBelow, if_neg (getLast?_joinAll_ne_slash directory nonempty), List.append_nil,
      List.filter_append, kept, List.map_append, downs]

theorem filter_bytes (location : Location) :
    (location.map Name.bytes).filter (fun piece => piece ≠ [] ∧ piece ≠ [dot]) =
      location.map Name.bytes := by
  apply List.filter_eq_self.2
  intro part member
  obtain ⟨name, -, rfl⟩ := List.mem_map.1 member
  exact decide_eq_true ⟨name.bytes_ne_nil, name.bytes_ne_dot⟩

theorem components_joinAll {directory : Bytes} (rooted : directory ≠ []) {location : Location}
    (nonempty : location ≠ []) :
    components (joinAll directory location) =
      components directory ++ location.map Name.bytes := by
  obtain ⟨front, tail, frontNonempty, ends, pieces, piecesBelow⟩ :=
    exists_pieces_joinAll rooted nonempty
  have noPiece : tail.filter (fun piece => piece ≠ [] ∧ piece ≠ [dot]) = [] := by
    rcases ends with rfl | rfl <;> rfl
  have head (more : List Bytes) : (front ++ more).head? = front.head? := by
    cases front with
    | nil => contradiction
    | cons piece front => rfl
  simp only [components, pieces, piecesBelow, isAbsolute_joinAll rooted, head, List.filter_append,
    filter_bytes, noPiece, List.append_nil, List.append_assoc]

theorem relativeTo_joinAll {directory : Bytes} (rooted : directory ≠ []) {location : Location}
    (nonempty : location ≠ []) :
    relativeTo directory (joinAll directory location) =
      joinWith slash (location.map Name.bytes) := by
  rw [relativeTo, components_joinAll rooted nonempty, dropStart?_append]

end Path

end SourceBook
