import SourceBook.Proofs.FileSystem.Resolution
import SourceBook.Proofs.FileSystem.Spelling

set_option autoImplicit false

namespace SourceBook

def Stretch.extend (top : Listing) (more : List Step) : Stretch → Stretch
  | .arrived (.found (.directory location inner)) =>
    FileSystem.descend top .lookUp location inner more
  | .arrived (.found (.file location data)) =>
    if more = [] then .arrived (.found (.file location data)) else .refused .notDirectory
  | .arrived (.absent parent name) =>
    if more = [] then .arrived (.absent parent name) else .refused .noSuchEntry
  | .link location inner target rest => .link location inner target (rest ++ more)
  | .refused cause => .refused cause

def Node.found? (location : Location) : Node → Option Found
  | .directory inner => some (.directory location inner)
  | .leaf (.file data) => some (.file location data)
  | .leaf (.link _) => none

namespace FileSystem

theorem descend_append (top : Listing) (location : Location) (inner : Listing)
    (steps more : List Step) :
    descend top .lookUp location inner (steps ++ more) =
      (descend top .lookUp location inner steps).extend top more := by
  induction steps generalizing location inner with
  | nil => rfl
  | cons step rest ih =>
    cases step with
    | stay | inside => exact ih location inner
    | unnameable => rfl
    | up =>
      simp only [List.cons_append, descend]
      cases directoryAt? top location.dropLast with
      | some outer => exact ih location.dropLast outer
      | none => rfl
    | down name =>
      simp only [List.cons_append, descend]
      cases inner.find? name with
      | none => cases rest <;> simp [Stretch.extend]
      | some node =>
        cases node with
        | directory below => simpa using ih (location ++ [name]) below
        | leaf item =>
          cases item with
          | link target => rfl
          | file data => cases rest <;> simp [Stretch.extend]

theorem follow_congr {top first second : Listing} {budget : Nat} {here there : Location}
    {steps others : List Step}
    (same : descend top .lookUp here first steps = descend top .lookUp there second others) :
    follow top .lookUp budget here first steps = follow top .lookUp budget there second others := by
  cases budget <;> rw [follow, follow, same]

section Tail

variable {top outer inner : Listing} {location base : Location} {budget : Nat}
  {steps tail : List Step}

theorem descend_of_arrived {place : Place}
    (arrives : descend top .lookUp location outer steps = .arrived place)
    (ends : tail = [] ∨ tail = [.inside])
    (reached : follow top .lookUp budget location outer (steps ++ tail) =
      .ok (.found (.directory base inner))) :
    place = .found (.directory base inner) := by
  have further := descend_append top location outer steps tail
  rw [arrives] at further
  rcases ends with rfl | rfl
  next =>
    rw [List.append_nil, follow_of_arrived arrives] at reached
    exact Except.ok.inj reached
  next =>
    cases place with
    | absent parent name =>
      rw [follow_of_refused further] at reached
      contradiction
    | found what =>
      cases what with
      | file there data =>
        rw [follow_of_refused further] at reached
        contradiction
      | directory there below =>
        rw [follow_of_arrived further] at reached
        exact Except.ok.inj reached

theorem follow_append_of_no_link (ends : tail = [] ∨ tail = [.inside])
    (reached : follow top .lookUp budget location outer (steps ++ tail) =
      .ok (.found (.directory base inner)))
    (noLink : ∀ parent below target rest,
      descend top .lookUp location outer steps ≠ .link parent below target rest) (more : List Step) :
    follow top .lookUp budget location outer (steps ++ more) =
      follow top .lookUp budget base inner more := by
  have further := descend_append top location outer steps
  cases leads : descend top .lookUp location outer steps with
  | arrived place =>
    obtain rfl := descend_of_arrived leads ends reached
    rw [leads] at further
    exact follow_congr (further more)
  | refused cause =>
    rw [leads] at further
    rw [follow_of_refused (further tail)] at reached
    contradiction
  | link parent below target rest => exact absurd leads (noLink parent below target rest)

theorem follow_append (ends : tail = [] ∨ tail = [.inside])
    (reached : follow top .lookUp budget location outer (steps ++ tail) =
      .ok (.found (.directory base inner))) :
    ∃ left, ∀ more, follow top .lookUp budget location outer (steps ++ more) =
      follow top .lookUp left base inner more := by
  induction budget generalizing location outer steps with
  | zero =>
    refine ⟨0, follow_append_of_no_link ends reached ?_⟩
    intro parent below target rest leads
    rw [follow, descend_append, leads] at reached
    contradiction
  | succ budget ih =>
    cases leads : descend top .lookUp location outer steps with
    | arrived | refused =>
      exact ⟨budget + 1, follow_append_of_no_link ends reached (by simp [leads])⟩
    | link parent below target rest =>
      -- The steps behind a link stay behind the steps of its target.
      rw [follow, descend_append, leads] at reached
      simp only [Stretch.extend, ← List.append_assoc] at reached
      split at reached
      next absolute =>
        obtain ⟨left, later⟩ := ih reached
        refine ⟨left, fun more => ?_⟩
        rw [follow, descend_append, leads, ← later, List.append_assoc]
        exact if_pos absolute
      next relative =>
        obtain ⟨left, later⟩ := ih reached
        refine ⟨left, fun more => ?_⟩
        rw [follow, descend_append, leads, ← later, List.append_assoc]
        exact if_neg relative

end Tail

theorem descend_names {top inner : Listing} {location names : Location} {node : Node}
    {what : Found} (stands : (Node.directory inner).at? names = some node)
    (shown : node.found? (location ++ names) = some what) :
    descend top .lookUp location inner (names.map .down) = .arrived (.found what) := by
  induction names generalizing location inner with
  | nil =>
    rw [Node.at?, Option.some.injEq] at stands
    subst stands
    rw [List.append_nil] at shown
    cases shown
    rfl
  | cons name rest ih =>
    obtain ⟨below, found, stands⟩ := Node.at?_cons.1 stands
    simp only [List.map_cons, descend, found]
    cases below with
    | directory inner =>
      rw [List.append_cons] at shown
      simpa using ih stands shown
    | leaf item =>
      cases rest with
      | cons next rest => contradiction
      | nil =>
        rw [Node.at?, Option.some.injEq] at stands
        subst stands
        cases item with
        | link target => contradiction
        | file data =>
          cases shown
          rfl

theorem origin?_joinAll {files : FileSystem} {root : Bytes} (rooted : root ≠ [])
    (names : Location) : files.origin? (Path.joinAll root names) = files.origin? root := by
  rw [origin?, origin?, Path.isAbsolute_joinAll rooted]

-- From the directory on only the names count, with what its own path has left of the budget.
theorem exists_resolve_joinAll {files : FileSystem} {root : Bytes} {base names : Location}
    {inner : Listing} (resolved : files.lookUp root = .ok (.directory base inner))
    (nonempty : names ≠ []) (short : (Path.joinAll root names).length ≤ longestPath) :
    ∃ left, files.resolve .lookUp (Path.joinAll root names) =
      follow files.top .lookUp left base inner (names.map .down) := by
  obtain ⟨noZero, rooted, _, start, outer, starts, followed⟩ :=
    resolve_eq_ok_iff.1 (lookUp_eq_ok_iff.1 resolved)
  obtain ⟨front, tail, ends, steps, below⟩ := Path.exists_steps_joinAll rooted nonempty
  rw [steps] at followed
  obtain ⟨left, further⟩ := follow_append ends followed
  have isPath : Path.joinAll root names ≠ [] := by
    rw [Path.joinAll_eq root nonempty]
    simp [rooted]
  refine ⟨left, ?_⟩
  rw [resolve, if_neg (Path.zero_not_mem_joinAll noZero names), if_neg isPath,
    if_neg (Nat.not_lt.2 short), origin?_joinAll rooted, starts, below]
  exact further (names.map .down)

theorem lookUp_joinAll {files : FileSystem} {root : Bytes} {base names : Location}
    {inner : Listing} {node : Node} {what : Found}
    (resolved : files.lookUp root = .ok (.directory base inner))
    (short : (Path.joinAll root names).length ≤ longestPath)
    (stands : (Node.directory inner).at? names = some node)
    (shown : node.found? (base ++ names) = some what) :
    files.lookUp (Path.joinAll root names) = .ok what := by
  by_cases nonempty : names = []
  next =>
    subst nonempty
    rw [Node.at?, Option.some.injEq] at stands
    subst stands
    rw [List.append_nil] at shown
    cases shown
    exact resolved
  next =>
    obtain ⟨left, below⟩ := exists_resolve_joinAll resolved nonempty short
    rw [lookUp_eq_ok_iff, below]
    exact follow_of_arrived (descend_names stands shown)

theorem lookUp_joinAll_congr {files : FileSystem} {first second : Bytes} {base : Location}
    {inner : Listing} (firstResolved : files.lookUp first = .ok (.directory base inner))
    (secondResolved : files.lookUp second = .ok (.directory base inner)) {names : Location}
    (firstShort : (Path.joinAll first names).length ≤ longestPath)
    (secondShort : (Path.joinAll second names).length ≤ longestPath)
    (firstBounded : files.lookUp (Path.joinAll first names) ≠ .error .tooManyLinks)
    (secondBounded : files.lookUp (Path.joinAll second names) ≠ .error .tooManyLinks) :
    files.lookUp (Path.joinAll first names) = files.lookUp (Path.joinAll second names) := by
  by_cases nonempty : names = []
  next =>
    subst nonempty
    exact firstResolved.trans secondResolved.symm
  next =>
    obtain ⟨left, below⟩ := exists_resolve_joinAll firstResolved nonempty firstShort
    obtain ⟨otherLeft, otherBelow⟩ := exists_resolve_joinAll secondResolved nonempty secondShort
    rw [lookUp, below] at firstBounded
    rw [lookUp, otherBelow] at secondBounded
    rw [lookUp, lookUp, below, otherBelow]
    rcases Nat.le_total left otherLeft with less | more
    next =>
      rw [follow_of_le less]
      intro exceeded
      rw [exceeded] at firstBounded
      exact firstBounded rfl
    next =>
      rw [follow_of_le more]
      intro exceeded
      rw [exceeded] at secondBounded
      exact secondBounded rfl

end FileSystem

end SourceBook
