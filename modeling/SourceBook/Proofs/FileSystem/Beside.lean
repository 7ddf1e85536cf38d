import SourceBook.Proofs.FileSystem.Resolution

set_option autoImplicit false

namespace SourceBook

namespace Node

def bare : Node → Node
  | leaf item => leaf item
  | directory _ => directory .nil

theorem bare_eq_leaf_iff {node : Node} {item : Leaf} : node.bare = leaf item ↔ node = leaf item := by
  cases node <;> simp [bare]

theorem bare_eq_directory_iff {node : Node} :
    node.bare = directory .nil ↔ ∃ inner, node = directory inner := by
  cases node <;> simp [bare]

end Node

namespace Listing

/-- A location that is a file's, or could be: no directory and no link stands there. -/
def FileAtMost (top : Listing) (location : Location) : Prop :=
  ∀ node, (Node.directory top).at? location = some node → ∃ data, node = .leaf (.file data)

def TakenAlike (first : Listing) (target : Location) (second : Listing) : Prop :=
  (Node.directory first).at? target = none ↔ (Node.directory second).at? target = none

structure SameBut (first : Listing) (target : Location) (second : Listing) : Prop where
  bare : ∀ location, location ≠ target →
    ((Node.directory first).at? location).map Node.bare =
      ((Node.directory second).at? location).map Node.bare
  first : first.FileAtMost target
  second : second.FileAtMost target

section SameBut

variable {first second : Listing} {target location : Location}

theorem SameBut.symm (same : first.SameBut target second) : second.SameBut target first where
  bare := fun location elsewhere => (same.bare location elsewhere).symm
  first := same.second
  second := same.first

theorem SameBut.leaf (same : first.SameBut target second) (elsewhere : location ≠ target)
    {item : Leaf} (stands : (Node.directory first).at? location = some (.leaf item)) :
    (Node.directory second).at? location = some (.leaf item) := by
  have bare := same.bare location elsewhere
  rw [stands, Option.map_some, eq_comm, Option.map_eq_some_iff] at bare
  obtain ⟨node, standsToo, alike⟩ := bare
  rw [standsToo, Node.bare_eq_leaf_iff.1 alike]

theorem FileAtMost.ne_of_directory {top inner : Listing} (atMost : top.FileAtMost target)
    (stands : (Node.directory top).at? location = some (.directory inner)) :
    location ≠ target := by
  intro same
  obtain ⟨data, file⟩ := atMost _ (same ▸ stands)
  cases file

theorem FileAtMost.ne_of_link {top : Listing} {path : Bytes} (atMost : top.FileAtMost target)
    (stands : (Node.directory top).at? location = some (.leaf (.link path))) :
    location ≠ target := by
  intro same
  obtain ⟨data, file⟩ := atMost _ (same ▸ stands)
  cases file

theorem SameBut.directory (same : first.SameBut target second) {inner : Listing}
    (stands : (Node.directory first).at? location = some (.directory inner)) :
    ∃ other, (Node.directory second).at? location = some (.directory other) := by
  have bare := same.bare location (same.first.ne_of_directory stands)
  rw [stands, Option.map_some, eq_comm, Option.map_eq_some_iff] at bare
  obtain ⟨node, standsToo, alike⟩ := bare
  obtain ⟨other, rfl⟩ := Node.bare_eq_directory_iff.1 alike
  exact ⟨other, standsToo⟩

theorem SameBut.none (same : first.SameBut target second) (elsewhere : location ≠ target)
    (missing : (Node.directory first).at? location = none) :
    (Node.directory second).at? location = none := by
  have bare := same.bare location elsewhere
  rw [missing, Option.map_none, eq_comm] at bare
  exact Option.map_eq_none_iff.1 bare

end SameBut

end Listing

def Place.file? : Place → Option Location
  | .found (.file location _) => some location
  | .found (.directory _ _) => none
  | .absent parent name => some (parent ++ [name])

def Place.bare : Place → Place
  | .found (.directory location _) => .found (.directory location .nil)
  | .found (.file location data) => .found (.file location data)
  | .absent parent name => .absent parent name

def Place.SameBut (target : Location) (place other : Place) : Prop :=
  if place.file? = some target then other.file? = some target else other.bare = place.bare

section Place

variable {target location : Location} {place other : Place}

theorem Place.SameBut.file? (same : place.SameBut target other)
    (leads : place.file? = some target) : other.file? = some target := by
  rwa [Place.SameBut, if_pos leads] at same

theorem Place.SameBut.directory {inner : Listing}
    (same : Place.SameBut target (.found (.directory location inner)) other) :
    ∃ outer, other = .found (.directory location outer) := by
  rw [Place.SameBut, if_neg (by simp [Place.file?])] at same
  cases other with
  | absent parent name => contradiction
  | found what =>
    cases what with
    | file there data => cases same
    | directory there outer =>
      cases same
      exact ⟨outer, rfl⟩

theorem Place.SameBut.file {data : Bytes}
    (same : Place.SameBut target (.found (.file location data)) other)
    (elsewhere : location ≠ target) : other = .found (.file location data) := by
  rw [Place.SameBut, if_neg (by simpa [Place.file?] using elsewhere)] at same
  cases other with
  | absent parent name => contradiction
  | found what =>
    cases what with
    | file there held => exact same
    | directory there outer => cases same

theorem Place.SameBut.absent {top : Listing} {parent : Location} {name : Name}
    (same : Place.SameBut target (.absent parent name) other) (stands : other.Stands top)
    (free : parent ++ [name] = target → (Node.directory top).at? target = none) :
    ∃ above missing, other = .absent above missing := by
  by_cases here : parent ++ [name] = target
  next =>
    have leads := same.file? (congrArg some here)
    cases other with
    | absent above missing => exact ⟨above, missing, rfl⟩
    | found what =>
      cases what with
      | directory there inner => contradiction
      | file there data =>
        cases leads
        cases stands.symm.trans (free here)
  next =>
    rw [Place.SameBut, if_neg (by simpa [Place.file?] using here)] at same
    cases other with
    | absent above missing => exact ⟨above, missing, rfl⟩
    | found what => cases what <;> cases same

theorem Place.sameBut_of_file? (leads : place.file? = some target)
    (leadsToo : other.file? = some target) : place.SameBut target other := by
  rwa [Place.SameBut, if_pos leads]

theorem Place.sameBut_of_bare (elsewhere : place.file? ≠ some target)
    (bare : other.bare = place.bare) : place.SameBut target other := by
  rwa [Place.SameBut, if_neg elsewhere]

theorem Place.found_of_file? {top : Listing} {data : Bytes} (stands : place.Stands top)
    (leads : place.file? = some location)
    (file : (Node.directory top).at? location = some (.leaf (.file data))) :
    place = .found (.file location data) := by
  cases place with
  | absent parent name =>
    obtain ⟨inner, standsParent, missing⟩ := stands
    cases leads
    rw [FileSystem.at?_down standsParent, missing] at file
    contradiction
  | found what =>
    cases what with
    | directory there inner => contradiction
    | file there held =>
      cases leads
      cases file.symm.trans stands
      rfl

end Place

inductive Stretch.SameBut (target : Location) (alike : Prop) : Stretch → Stretch → Prop where
  | arrived {place other : Place} (same : place.SameBut target other) :
      SameBut target alike (.arrived place) (.arrived other)
  | link (location : Location) (inner other : Listing) (path : Bytes) (rest : List Step) :
      SameBut target alike (.link location inner path rest) (.link location other path rest)
  -- Where the file is missing in one of the two, there may be another cause.
  | refused {cause other : AccessError} (same : alike → cause = other) :
      SameBut target alike (.refused cause) (.refused other)

inductive Place.Reached (target : Location) (alike : Prop) :
    Except AccessError Place → Except AccessError Place → Prop where
  | reached {place other : Place} (same : place.SameBut target other) :
      Reached target alike (.ok place) (.ok other)
  | refused {cause other : AccessError} (same : alike → cause = other) :
      Reached target alike (.error cause) (.error other)

namespace FileSystem

structure SameBut (first : FileSystem) (target : Location) (second : FileSystem) : Prop where
  cwd : first.cwd = second.cwd
  top : first.top.SameBut target second.top

theorem SameBut.symm {first second : FileSystem} {target : Location}
    (same : first.SameBut target second) : second.SameBut target first :=
  ⟨same.cwd.symm, same.top.symm⟩

section Target

variable {top inner : Listing} {target location : Location} {name : Name}
  (atMost : top.FileAtMost target)
  (stands : (Node.directory top).at? location = some (.directory inner))
  (here : location ++ [name] = target) (purpose : Purpose)

include atMost stands here

theorem find?_target :
    inner.find? name = none ∨ ∃ data, inner.find? name = some (.leaf (.file data)) := by
  have below := at?_down stands name
  rw [here] at below
  cases found : inner.find? name with
  | none => exact .inl rfl
  | some node =>
    obtain ⟨data, rfl⟩ := atMost node (below.trans found)
    exact .inr ⟨data, rfl⟩

theorem descend_to_target :
    ∃ place, place.file? = some target ∧
      descend top purpose location inner [.down name] = .arrived place := by
  subst here
  rcases find?_target atMost stands rfl with missing | ⟨data, found⟩
  next => exact ⟨.absent location name, rfl, by simp [descend, missing]⟩
  next => exact ⟨.found (.file (location ++ [name]) data), rfl, by simp [descend, found]⟩

theorem descend_past_target {rest : List Step} (further : rest ≠ []) :
    descend top purpose location inner (.down name :: rest) =
      .refused (if purpose = .create ∧ rest = [.inside] then .isDirectory
        else if (Node.directory top).at? target = none then .noSuchEntry else .notDirectory) := by
  have below := at?_down stands name
  rw [here] at below
  by_cases slash : purpose = .create ∧ rest = [.inside]
  next => simp only [descend, if_pos slash]
  next =>
    rcases find?_target atMost stands here with missing | ⟨data, found⟩
    next =>
      simp only [descend, if_neg slash, missing, if_neg further, if_pos (below.trans missing)]
    next =>
      have taken : (Node.directory top).at? target ≠ none := by simp [below, found]
      simp only [descend, if_neg slash, found, if_neg further, if_neg taken]

end Target

section Descend

variable {first second inner other : Listing} {target location : Location}
  (same : first.SameBut target second)

include same

theorem directoryAt?_none_of_sameBut (missing : directoryAt? first location = none) :
    directoryAt? second location = none := by
  apply Option.eq_none_iff_forall_ne_some.2
  intro outer found
  obtain ⟨outer, stands⟩ := same.symm.directory (at?_of_directoryAt? found)
  rw [directoryAt?_eq_some_iff.2 stands] at missing
  contradiction

variable (stands : (Node.directory first).at? location = some (.directory inner))
  (standsToo : (Node.directory second).at? location = some (.directory other))

include stands standsToo

theorem descend_here_sameBut {name : Name} (here : location ++ [name] = target)
    (purpose : Purpose) (rest : List Step) :
    (descend first purpose location inner (.down name :: rest)).SameBut target
      (first.TakenAlike target second)
      (descend second purpose location other (.down name :: rest)) := by
  by_cases last : rest = []
  next =>
    obtain ⟨place, leads, arrives⟩ := descend_to_target same.first stands here purpose
    obtain ⟨there, leadsToo, arrivesToo⟩ := descend_to_target same.second standsToo here purpose
    rw [last, arrives, arrivesToo]
    exact .arrived (Place.sameBut_of_file? leads leadsToo)
  next =>
    rw [descend_past_target same.first stands here purpose last,
      descend_past_target same.second standsToo here purpose last]
    refine .refused fun alike => ?_
    rw [Listing.TakenAlike] at alike
    simp only [alike]

theorem descend_elsewhere_sameBut {name : Name} (elsewhere : location ++ [name] ≠ target)
    {purpose : Purpose} {rest : List Step}
    (deeper : ∀ below belowToo,
      (Node.directory first).at? (location ++ [name]) = some (.directory below) →
      (Node.directory second).at? (location ++ [name]) = some (.directory belowToo) →
        (descend first purpose (location ++ [name]) below rest).SameBut target
          (first.TakenAlike target second)
          (descend second purpose (location ++ [name]) belowToo rest)) :
    (descend first purpose location inner (.down name :: rest)).SameBut target
      (first.TakenAlike target second)
      (descend second purpose location other (.down name :: rest)) := by
  have below := at?_down stands name
  have belowToo := at?_down standsToo name
  simp only [descend]
  by_cases slash : purpose = .create ∧ rest = [.inside]
  next => simpa only [if_pos slash] using .refused fun _ => rfl
  next =>
    simp only [if_neg slash]
    cases found : inner.find? name with
    | none =>
      rw [← belowToo, same.none elsewhere (below.trans found)]
      by_cases last : rest = []
      next =>
        simp only [if_pos last]
        exact .arrived (Place.sameBut_of_bare (by simpa [Place.file?] using elsewhere) rfl)
      next => simpa only [if_neg last] using .refused fun _ => rfl
    | some node =>
      rw [found] at below
      cases node with
      | directory inside =>
        obtain ⟨insideToo, standsBelow⟩ := same.directory below
        rw [← belowToo, standsBelow]
        exact deeper _ _ below standsBelow
      | leaf item =>
        rw [← belowToo, same.leaf elsewhere below]
        cases item with
        | link path => exact .link _ _ _ _ _
        | file data =>
          by_cases last : rest = []
          next =>
            simp only [if_pos last]
            exact .arrived (Place.sameBut_of_bare (by simpa [Place.file?] using elsewhere) rfl)
          next => simpa only [if_neg last] using .refused fun _ => rfl

theorem descend_sameBut (purpose : Purpose) (steps : List Step) :
    (descend first purpose location inner steps).SameBut target (first.TakenAlike target second)
      (descend second purpose location other steps) := by
  induction steps generalizing location inner other with
  | nil => exact .arrived (Place.sameBut_of_bare (by simp [Place.file?]) rfl)
  | cons step rest ih =>
    cases step with
    | stay | inside => exact ih stands standsToo
    | unnameable => exact .refused fun _ => rfl
    | up =>
      simp only [descend]
      cases found : directoryAt? first location.dropLast with
      | none =>
        rw [directoryAt?_none_of_sameBut same found]
        exact .refused fun _ => rfl
      | some outer =>
        have standsAbove := at?_of_directoryAt? found
        obtain ⟨outerToo, standsAboveToo⟩ := same.directory standsAbove
        rw [directoryAt?_eq_some_iff.2 standsAboveToo]
        exact ih standsAbove standsAboveToo
    | down name =>
      by_cases here : location ++ [name] = target
      next => exact descend_here_sameBut same stands standsToo here purpose rest
      next => exact descend_elsewhere_sameBut same stands standsToo here fun _ _ => ih

end Descend

-- The same links are met, so that one budget serves for both.
theorem follow_sameBut {first second inner other : Listing} {target location : Location}
    (same : first.SameBut target second)
    (stands : (Node.directory first).at? location = some (.directory inner))
    (standsToo : (Node.directory second).at? location = some (.directory other))
    (purpose : Purpose) (budget : Nat) (steps : List Step) :
    Place.Reached target (first.TakenAlike target second)
      (follow first purpose budget location inner steps)
      (follow second purpose budget location other steps) := by
  induction budget generalizing location inner other steps with
  | zero =>
    have alike := descend_sameBut same stands standsToo purpose steps
    rw [follow, follow]
    generalize descend first purpose location inner steps = ahead at alike
    generalize descend second purpose location other steps = aheadToo at alike
    cases alike with
    | arrived alike => exact .reached alike
    | refused alike => exact .refused alike
    | link => exact .refused fun _ => rfl
  | succ budget ih =>
    have alike := descend_sameBut same stands standsToo purpose steps
    have stretch := descend_stands stands purpose steps
    have stretchToo := descend_stands standsToo purpose steps
    rw [follow, follow]
    generalize descend first purpose location inner steps = ahead at alike stretch
    generalize descend second purpose location other steps = aheadToo at alike stretchToo
    cases alike with
    | arrived alike => exact .reached alike
    | refused alike => exact .refused alike
    | link parent outer outerToo path rest =>
      dsimp only
      split
      next => exact ih rfl rfl _
      next => exact ih stretch stretchToo _

section SameBut

variable {files others : FileSystem} {target location : Location} {path : Bytes}
  (same : files.SameBut target others)

include same

theorem origin?_sameBut {start : Location} {outer : Listing}
    (starts : files.origin? path = some (start, outer)) :
    ∃ other, others.origin? path = some (start, other) := by
  rw [origin?] at starts ⊢
  split at starts
  next absolute =>
    cases starts
    exact ⟨others.top, if_pos absolute⟩
  next relative =>
    obtain ⟨inner, found, starts⟩ := Option.map_eq_some_iff.1 starts
    cases starts
    obtain ⟨other, stands⟩ := same.top.directory (at?_of_directoryAt? found)
    exact ⟨other, by rw [if_neg relative, ← same.cwd, directoryAt?_eq_some_iff.2 stands]; rfl⟩

theorem origin?_none_of_sameBut (missing : files.origin? path = none) :
    others.origin? path = none := by
  apply Option.eq_none_iff_forall_ne_some.2
  rintro ⟨start, outer⟩ starts
  obtain ⟨other, startsToo⟩ := origin?_sameBut same.symm starts
  rw [missing] at startsToo
  contradiction

theorem resolve_sameBut (purpose : Purpose) (path : Bytes) :
    Place.Reached target (files.top.TakenAlike target others.top) (files.resolve purpose path)
      (others.resolve purpose path) := by
  rw [resolve, resolve]
  split
  next => exact .refused fun _ => rfl
  next =>
    split
    next => exact .refused fun _ => rfl
    next =>
      split
      next => exact .refused fun _ => rfl
      next =>
        cases starts : files.origin? path with
        | none =>
          rw [origin?_none_of_sameBut same starts]
          exact .refused fun _ => rfl
        | some origin =>
          rcases origin with ⟨start, outer⟩
          obtain ⟨other, startsToo⟩ := origin?_sameBut same starts
          rw [startsToo]
          exact follow_sameBut same.top (origin?_stands starts) (origin?_stands startsToo) _ _ _

theorem exists_resolve_sameBut {purpose : Purpose} {place : Place}
    (reached : files.resolve purpose path = .ok place) :
    ∃ there, others.resolve purpose path = .ok there ∧ place.SameBut target there := by
  have alike := resolve_sameBut same purpose path
  rw [reached] at alike
  generalize leads : others.resolve purpose path = result at alike
  cases alike with
  | reached alike => exact ⟨_, rfl, alike⟩

theorem lookUp_directory_of_sameBut {inner : Listing}
    (found : files.lookUp path = .ok (.directory location inner)) :
    ∃ other, others.lookUp path = .ok (.directory location other) := by
  obtain ⟨there, reached, alike⟩ := exists_resolve_sameBut same (lookUp_eq_ok_iff.1 found)
  obtain ⟨other, rfl⟩ := alike.directory
  exact ⟨other, lookUp_eq_ok_iff.2 reached⟩

theorem lookUp_file_of_sameBut {data : Bytes}
    (found : files.lookUp path = .ok (.file location data)) (elsewhere : location ≠ target) :
    others.lookUp path = .ok (.file location data) := by
  obtain ⟨there, reached, alike⟩ := exists_resolve_sameBut same (lookUp_eq_ok_iff.1 found)
  exact lookUp_eq_ok_iff.2 (alike.file elsewhere ▸ reached)

theorem lookUp_error_of_sameBut {cause : AccessError}
    (alike : files.top.TakenAlike target others.top)
    (refused : files.lookUp path = .error cause) : others.lookUp path = .error cause := by
  have reaches := resolve_sameBut same .lookUp path
  rw [lookUp] at refused ⊢
  generalize leads : files.resolve .lookUp path = result at reaches refused
  generalize leadsToo : others.resolve .lookUp path = resultToo at reaches ⊢
  cases reaches with
  | refused sameCause => rwa [sameCause alike] at refused
  | @reached place other same =>
    cases place with
    | found what => contradiction
    | absent parent name =>
      obtain ⟨inner, stands, missing⟩ := resolve_stands leads
      have free : parent ++ [name] = target → (Node.directory others.top).at? target = none := by
        intro here
        exact alike.1 (here ▸ (at?_down stands name).trans missing)
      obtain ⟨above, next, rfl⟩ := same.absent (resolve_stands leadsToo) free
      exact refused

theorem resolve_target_of_sameBut {purpose : Purpose} {place : Place} {data : Bytes}
    (reached : files.resolve purpose path = .ok place) (leads : place.file? = some target)
    (file : others.at? target = some (.leaf (.file data))) :
    others.resolve purpose path = .ok (.found (.file target data)) := by
  obtain ⟨there, reachedToo, alike⟩ := exists_resolve_sameBut same reached
  rw [reachedToo, Place.found_of_file? (resolve_stands reachedToo) (alike.file? leads) file]

end SameBut

end FileSystem

end SourceBook
